import Simurga.ManagerJobs

/-!
# Requests and their objects

What holds of every request in the table, in every run: its serial number
is its own; its `http_object_` was made for the job that carries its
address, and holds the reply of that job as soon as there is one; a
completion in its message queue is of a job that has been run for this id,
though maybe for another request of this id.

Together with `JobsKnown` this is `Known`, which the three results about
the system take for granted: `known` asks nothing of the guard of the run.
-/

namespace Simurga

variable {Id Class : Type} {table : ObjectTable Class}

/-! ## What a call of `handler` keeps -/

namespace Request

variable {fullId : Id} {addr : Nat} {r r' : Request Id Class} {outs : List Output}
  {verdict : Verdict Id}

theorem Responds.keeps (h : Responds fullId addr r r' outs verdict) :
    r'.serial = r.serial ∧ r'.role = r.role ∧ r'.messages = r.messages ∧ r'.state = r.state
      ∧ r'.state_ = r.state_ := by
  cases h <;> exact ⟨rfl, rfl, rfl, rfl, rfl⟩

theorem Handled.keeps (h : Handled fullId addr r r' outs verdict) :
    r'.serial = r.serial ∧ r'.role = r.role ∧ r'.messages ⊆ r.messages ∧ r'.state_ = r.state_ := by
  have htail : ∀ {m : Message Id} {ms : List (Message Id)}, r.messages = m :: ms →
      ms ⊆ r.messages := by
    intro m ms hm
    rw [hm]
    exact List.subset_cons_self m ms
  cases h with
  | badRole => exact ⟨rfl, rfl, List.Subset.refl _, rfl⟩
  | inputEnd _ hm _ _ h | callback _ hm h =>
      obtain ⟨hserial, hrole, hmessages, -, hstate_⟩ := h.keeps
      exact ⟨hserial, hrole, hmessages ▸ htail hm, hstate_⟩
  | paramsEnd hm | params hm | fillThrows hm | input hm | bigPost hm | unknownContentType hm
  | outOfOrder hm | abort hm | ignored hm => exact ⟨rfl, rfl, htail hm, rfl⟩

/-- An object is replaced by a scheduled one only. -/
theorem Responds.httpObject (h : Responds fullId addr r r' outs verdict) :
    r'.httpObject = r.httpObject ∨ r'.httpObject = none ∨
      ∃ job obj, verdict = .scheduled job ∧ r'.httpObject = some (addr, obj) := by
  cases h with
  | notFound => exact Or.inr (Or.inl rfl)
  | fails => exact Or.inl rfl
  | scheduled obj => exact Or.inr (Or.inr ⟨_, obj, rfl, rfl⟩)
  | finish => exact Or.inl rfl

theorem Handled.httpObject (h : Handled fullId addr r r' outs verdict) :
    r'.httpObject = r.httpObject ∨ r'.httpObject = none ∨
      ((r.role = 1 ∨ r.role = 2) ∧
        ∃ job obj, verdict = .scheduled job ∧ r'.httpObject = some (addr, obj)) := by
  cases h with
  | inputEnd hrole _ _ _ h | callback hrole _ h =>
      exact h.httpObject.imp_right fun h => h.imp_right fun h => ⟨hrole, h⟩
  | badRole | paramsEnd | params | fillThrows | input | bigPost | unknownContentType | outOfOrder
  | abort | ignored => exact Or.inl rfl

/-- The write of a job changes nothing but what is in the object. -/
theorem writeReply_eq (r : Request Id Class) (job : Job Id) (reply : Reply) :
    ∃ obj, r.writeReply job reply = { r with httpObject := obj }
      ∧ obj.map Prod.fst = r.httpObject.map Prod.fst := by
  unfold writeReply
  split
  · rename_i addr obj hobj
    split
    · exact ⟨_, rfl, by simp [hobj]⟩
    · exact ⟨r.httpObject, rfl, rfl⟩
  · exact ⟨r.httpObject, rfl, rfl⟩

end Request

namespace System

variable {log es : List (Event Id)}

/-! ## Requests in the table -/

/-- What the events say about a request of `id`. -/
structure Owned (log : List (Event Id)) (next : Nat) (id : Id) (r : Request Id Class) : Prop where
  serial_lt : r.serial < next
  role : r.httpObject ≠ none → r.role = 1 ∨ r.role = 2
  object : ∀ {addr obj}, r.httpObject = some (addr, obj) → ∃ job, .scheduled job ∈ log
    ∧ job.addr = addr ∧ job.serial = r.serial ∧ job.fullId = id
    ∧ ∀ reply, .returned job reply ∈ log → obj.reply = reply
  callback : ∀ {job}, .callback job ∈ r.messages → .completed job ∈ log ∧ job.fullId = id

/-- Events other than the end of a job. -/
theorem Owned.later {next next' : Nat} {id : Id} {r : Request Id Class} (h : Owned log next id r)
    (hes : ∀ job reply, .returned job reply ∉ es) (hnext : next ≤ next') :
    Owned (log ++ es) next' id r := by
  refine ⟨Nat.lt_of_lt_of_le h.serial_lt hnext, h.role, ?_, ?_⟩
  · intro addr obj hobj
    obtain ⟨job, hjob, haddr, hserial, hid, hreply⟩ := h.object hobj
    refine ⟨job, List.mem_append_left _ hjob, haddr, hserial, hid, fun reply hret => ?_⟩
    exact hreply reply ((List.mem_append.mp hret).resolve_right (hes job reply))
  · intro job hm
    obtain ⟨hcompleted, hid⟩ := h.callback hm
    exact ⟨List.mem_append_left _ hcompleted, hid⟩

/-- The end of a job, for a request of its id: the reply goes to the object
whose address the job has. -/
theorem Owned.returns {next : Nat} {q : JobQueue (Job Id)} {job : Job Id} {jobs : List (Job Id)}
    {reply : Reply} {r : Request Id Class} (h : Owned log next job.fullId r)
    (hjobs : JobsKnown log next q) (hjob : q.thread = .first job jobs) :
    Owned (log ++ [.returned job reply]) next job.fullId (r.writeReply job reply) := by
  have hmem : job ∈ unfinished q := by simp [unfinished, hjob, handling]
  have hscheduled : .scheduled job ∈ log := hjobs.scheduled (unfinished_subset q hmem)
  have hreturned : ∀ {job' reply'}, .returned job' reply' ∈ log ++ [.returned job reply] →
      .returned job' reply' ∈ log ∨ job' = job ∧ reply' = reply := by
    intro job' reply' hmem
    simpa using hmem
  have hcallback : ∀ {job'}, .callback job' ∈ r.messages →
      .completed job' ∈ log ++ [.returned job reply] ∧ job'.fullId = job.fullId := by
    intro job' hm
    obtain ⟨hcompleted, hid⟩ := h.callback hm
    exact ⟨List.mem_append_left _ hcompleted, hid⟩
  cases hobj : r.httpObject with
  | none =>
      have hwrite : r.writeReply job reply = r := by simp only [Request.writeReply, hobj]
      rw [hwrite]
      refine ⟨h.serial_lt, h.role, ?_, hcallback⟩
      intro addr obj hobj'
      rw [hobj] at hobj'
      cases hobj'
  | some ao =>
      obtain ⟨addr, obj⟩ := ao
      obtain ⟨job₀, hjob₀, haddr, hserial, hid, hreply⟩ := h.object hobj
      have hrole : r.role = 1 ∨ r.role = 2 := h.role (by simp [hobj])
      by_cases hsame : addr = job.addr
      · have hwrite : r.writeReply job reply
            = { r with httpObject := some (addr, obj.write reply) } := by
          simp only [Request.writeReply, hobj, if_pos hsame]
        obtain rfl : job₀ = job := hjobs.addr_inj hjob₀ hscheduled (haddr.trans hsame)
        rw [hwrite]
        refine ⟨h.serial_lt, fun _ => hrole, ?_, hcallback⟩
        intro addr' obj' hobj'
        cases hobj'
        refine ⟨job₀, List.mem_append_left _ hjob₀, haddr, hserial, hid, fun reply' hret => ?_⟩
        rcases hreturned hret with hret | ⟨-, rfl⟩
        · exact absurd hret (hjobs.pending hmem)
        · exact HttpObject.reply_write obj reply'
      · have hwrite : r.writeReply job reply = r := by
          simp only [Request.writeReply, hobj, if_neg hsame]
        rw [hwrite]
        refine ⟨h.serial_lt, h.role, ?_, hcallback⟩
        intro addr' obj' hobj'
        rw [hobj] at hobj'
        cases hobj'
        refine ⟨job₀, List.mem_append_left _ hjob₀, haddr, hserial, hid, fun reply' hret => ?_⟩
        rcases hreturned hret with hret | ⟨rfl, -⟩
        · exact hreply reply' hret
        · exact absurd haddr.symm hsame

/-- The end of a job of another id. -/
theorem Owned.returns_ne {next : Nat} {id : Id} {job : Job Id} {reply : Reply}
    {r : Request Id Class} (h : Owned log next id r) (hid : id ≠ job.fullId) :
    Owned (log ++ [.returned job reply]) next id r := by
  refine ⟨h.serial_lt, h.role, ?_, ?_⟩
  · intro addr obj hobj
    obtain ⟨job₀, hjob₀, haddr, hserial, hid₀, hreply⟩ := h.object hobj
    refine ⟨job₀, List.mem_append_left _ hjob₀, haddr, hserial, hid₀, fun reply' hret => ?_⟩
    rcases List.mem_append.mp hret with hret | hret
    · exact hreply reply' hret
    · obtain ⟨rfl, -⟩ := Event.returned.inj (List.mem_singleton.mp hret)
      exact absurd hid₀.symm hid
  · intro job' hm
    obtain ⟨hcompleted, hid'⟩ := h.callback hm
    exact ⟨List.mem_append_left _ hcompleted, hid'⟩

/-- A call of `handler`. -/
theorem Owned.handled {next : Nat} {id : Id} {r r' : Request Id Class} {outs : List Output}
    {verdict : Verdict Id} (h : Owned log next id r) (hhandled : r.Handled id next r' outs verdict)
    (hobj : ∀ job, verdict ≠ .scheduled job) : Owned log next id r' := by
  obtain ⟨hserial, hrole, hmessages, -⟩ := hhandled.keeps
  have hkeep : ∀ {addr obj}, r'.httpObject = some (addr, obj) →
      r.httpObject = some (addr, obj) := by
    intro addr obj hobj'
    rcases hhandled.httpObject with heq | hnone | ⟨-, job, obj, hverdict, -⟩
    · rw [← heq, hobj']
    · rw [hnone] at hobj'
      cases hobj'
    · exact absurd hverdict (hobj job)
  refine ⟨hserial ▸ h.serial_lt, ?_, ?_, fun hm => h.callback (hmessages hm)⟩
  · intro hne
    obtain ⟨⟨addr, obj⟩, hobj'⟩ := Option.ne_none_iff_exists'.mp hne
    rw [hrole]
    exact h.role (by simp [hkeep hobj'])
  · intro addr obj hobj'
    rw [hserial]
    exact h.object (hkeep hobj')

/-- A call of `handler` that adds a job. -/
theorem Owned.scheduled {next : Nat} {id : Id} {r r' : Request Id Class} {outs : List Output}
    {job : Job Id} (h : Owned log next id r) (hjobs : ∀ reply, .returned job reply ∉ log)
    (hhandled : r.Handled id next r' outs (.scheduled job)) :
    Owned (log ++ [.scheduled job]) (next + 1) id r' := by
  obtain ⟨hserial, hrole, hmessages, -⟩ := hhandled.keeps
  obtain ⟨haddr, hserial', hid, obj, hobj⟩ := handled_scheduled hhandled
  refine ⟨hserial ▸ Nat.lt_succ_of_lt h.serial_lt, ?_, ?_, ?_⟩
  · intro _
    rw [hrole]
    rcases hhandled.httpObject with heq | hnone | ⟨hrole, -⟩
    · exact h.role (by simp [← heq, hobj])
    · rw [hnone] at hobj
      cases hobj
    · exact hrole
  · intro addr' obj' hobj'
    rw [hobj] at hobj'
    cases hobj'
    refine ⟨job, List.mem_append_right _ (List.mem_singleton.mpr rfl), haddr,
      hserial'.trans hserial.symm, hid, fun reply hret => ?_⟩
    exact absurd (by simpa using hret) (hjobs reply)
  · intro job' hm
    obtain ⟨hcompleted, hid'⟩ := h.callback (hmessages hm)
    exact ⟨List.mem_append_left _ hcompleted, hid'⟩

/-! ## The run -/

/-- What holds in every run. -/
structure Known (log : List (Event Id)) (s : System Id Class) : Prop where
  jobs : JobsKnown log s.next s.jobQueue
  owned : ∀ {id r}, s.requests id = some r → Owned log s.next id r
  serial_inj : ∀ {id id' r r'}, s.requests id = some r → s.requests id' = some r' →
    r.serial = r'.serial → id = id'
  output_lt : ∀ {serial id o}, .output serial id o ∈ log → serial < s.next

/-- A step that puts no new request into the table. -/
theorem Known.of_requests {s s' : System Id Class} (h : Known log s)
    (hjobs : JobsKnown (log ++ es) s'.next s'.jobQueue) (hnext : s.next ≤ s'.next)
    (houtput : ∀ serial id o, .output serial id o ∈ es → serial < s'.next)
    (hrequests : ∀ {id r'}, s'.requests id = some r' →
      (∃ r, s.requests id = some r ∧ r'.serial = r.serial) ∧ Owned (log ++ es) s'.next id r') :
    Known (log ++ es) s' := by
  refine ⟨hjobs, fun hr => (hrequests hr).2, ?_, ?_⟩
  · intro id id' r₁ r₂ hr₁ hr₂ hserial
    obtain ⟨⟨r₁', hr₁', heq₁⟩, -⟩ := hrequests hr₁
    obtain ⟨⟨r₂', hr₂', heq₂⟩, -⟩ := hrequests hr₂
    exact h.serial_inj hr₁' hr₂' (heq₁.symm.trans (hserial.trans heq₂))
  · intro serial id o hmem
    rcases List.mem_append.mp hmem with hmem | hmem
    · exact Nat.lt_of_lt_of_le (h.output_lt hmem) hnext
    · exact houtput serial id o hmem

/-- A step that leaves the table as it is. -/
theorem Known.same {s s' : System Id Class} (h : Known log s)
    (hjobs : JobsKnown (log ++ es) s'.next s'.jobQueue) (hnext : s.next ≤ s'.next)
    (hes : ∀ job reply, .returned job reply ∉ es) (houtput : ∀ serial id o, .output serial id o ∉ es)
    (hrequests : s'.requests = s.requests) : Known (log ++ es) s' := by
  refine h.of_requests hjobs hnext (fun serial id o hmem => absurd hmem (houtput serial id o)) ?_
  intro id r hr
  rw [hrequests] at hr
  exact ⟨⟨r, hr, rfl⟩, (h.owned hr).later hes hnext⟩

theorem output_mem_outputs {serial serial' : Nat} {id id' : Id} {o : Output} {outs : List Output}
    (h : .output serial' id' o ∈ outs.map (Event.output serial id)) :
    serial' = serial ∧ id' = id ∧ o ∈ outs := by
  obtain ⟨o', ho', heq⟩ := List.mem_map.mp h
  cases heq
  exact ⟨rfl, rfl, ho'⟩

theorem returned_not_mem_outputs (serial : Nat) (id : Id) (outs : List Output) (job : Job Id)
    (reply : Reply) : .returned job reply ∉ outs.map (Event.output serial id) := by
  intro h
  obtain ⟨o, -, heq⟩ := List.mem_map.mp h
  cases heq

variable [DecidableEq Id]

theorem update_eq_some {requests : Id → Option (Request Id Class)} {id id' : Id}
    {v : Option (Request Id Class)} {r : Request Id Class}
    (h : Function.update requests id v id' = some r) :
    id' = id ∧ v = some r ∨ id' ≠ id ∧ requests id' = some r := by
  by_cases hid : id' = id
  · subst hid
    rw [Function.update_self] at h
    exact Or.inl ⟨rfl, h⟩
  · rw [Function.update_of_ne hid] at h
    exact Or.inr ⟨hid, h⟩

/-- A step that changes one request. -/
theorem Known.update {s s' : System Id Class} {id : Id} {r r' : Request Id Class} (h : Known log s)
    (hjobs : JobsKnown (log ++ es) s'.next s'.jobQueue) (hnext : s.next ≤ s'.next)
    (hes : ∀ job reply, .returned job reply ∉ es)
    (houtput : ∀ serial id o, .output serial id o ∈ es → serial < s'.next)
    (hr : s.requests id = some r)
    (hrequests : s'.requests = Function.update s.requests id (some r'))
    (hserial : r'.serial = r.serial) (howned : Owned (log ++ es) s'.next id r') :
    Known (log ++ es) s' := by
  refine h.of_requests hjobs hnext houtput ?_
  intro id₂ r₂ hr₂
  rw [hrequests] at hr₂
  rcases update_eq_some hr₂ with ⟨rfl, heq⟩ | ⟨-, hr₂⟩
  · cases heq
    exact ⟨⟨r, hr, hserial⟩, howned⟩
  · exact ⟨⟨r₂, hr₂, rfl⟩, (h.owned hr₂).later hes hnext⟩

theorem known_step {s s' : System Id Class} {a : Act Id} (h : Known log s)
    (hstep : Step s a s' es) : Known (log ++ es) s' := by
  have hjobs := jobsKnown_step h.jobs hstep
  cases hstep with
  | @queue id record r hthread hr =>
      refine h.update hjobs (Nat.le_refl _) (by simp) (by simp) hr rfl rfl ?_
      have howned : Owned (log ++ [.received id record]) s.next _ r :=
        (h.owned hr).later (by simp) (Nat.le_refl _)
      refine ⟨howned.serial_lt, howned.role, howned.object, fun hm => howned.callback ?_⟩
      simpa using hm
  | @opened id role keepConn hthread hr =>
      refine ⟨hjobs, ?_, ?_, ?_⟩
      · intro id' r hr'
        rcases update_eq_some hr' with ⟨rfl, heq⟩ | ⟨-, hr'⟩
        · cases heq
          exact ⟨Nat.lt_succ_self _, by simp, by simp, by simp⟩
        · exact (h.owned hr').later (by simp) (Nat.le_succ _)
      · intro id₁ id₂ r₁ r₂ hr₁ hr₂ hserial
        rcases update_eq_some hr₁ with ⟨hid₁, heq₁⟩ | ⟨-, hr₁⟩ <;>
          rcases update_eq_some hr₂ with ⟨hid₂, heq₂⟩ | ⟨-, hr₂⟩
        · rw [hid₁, hid₂]
        · cases heq₁
          exact absurd hserial (Nat.ne_of_gt (h.owned hr₂).serial_lt)
        · cases heq₂
          exact absurd hserial (Nat.ne_of_lt (h.owned hr₁).serial_lt)
        · exact h.serial_inj hr₁ hr₂ hserial
      · intro serial id' o hmem
        exact Nat.lt_succ_of_lt (h.output_lt (by simpa using hmem))
  | dropped => exact h.same hjobs (Nat.le_refl _) (by simp) (by simp) rfl
  | take => exact h.same hjobs (Nat.le_refl _) (by simp) (by simp) rfl
  | takeNone => exact h.same hjobs (Nat.le_refl _) (by simp) (by simp) rfl
  | undefined => exact h.same hjobs (Nat.le_refl _) (by simp) (by simp) rfl
  | leave => exact h.same hjobs (Nat.le_refl _) (by simp) (by simp) rfl
  | jobs => exact h.same hjobs (Nat.le_refl _) (by simp) (by simp) rfl
  | callbackDropped => exact h.same hjobs (Nat.le_refl _) (by simp) (by simp) rfl
  | keep hthread hr hhandled | finished hthread hr hhandled =>
      refine h.update hjobs (Nat.le_refl _) (returned_not_mem_outputs _ _ _) ?_ hr rfl
        hhandled.keeps.1 ?_
      · intro serial id o hmem
        rw [(output_mem_outputs hmem).1]
        exact (h.owned hr).serial_lt
      · exact ((h.owned hr).handled hhandled (by simp)).later (returned_not_mem_outputs _ _ _)
          (Nat.le_refl _)
  | @scheduled id fails fresh r r' outs job hthread hr hhandled =>
      have hnew : ∀ reply, .returned job reply ∉ log ++ outs.map (.output r.serial id) := by
        intro reply hret
        have hret : .returned job reply ∈ log :=
          (List.mem_append.mp hret).resolve_right (returned_not_mem_outputs _ _ _ _ _)
        have := h.jobs.addr_lt (h.jobs.returned hret)
        rw [(handled_scheduled hhandled).1] at this
        exact Nat.lt_irrefl _ this
      refine h.update hjobs (Nat.le_succ _) ?_ ?_ hr rfl hhandled.keeps.1 ?_
      · intro job' reply hmem
        rcases List.mem_append.mp hmem with hmem | hmem
        · exact returned_not_mem_outputs _ _ _ _ _ hmem
        · simp at hmem
      · intro serial id' o hmem
        rcases List.mem_append.mp hmem with hmem | hmem
        · rw [(output_mem_outputs hmem).1]
          exact Nat.lt_succ_of_lt (h.owned hr).serial_lt
        · simp at hmem
      · rw [← List.append_assoc]
        exact ((h.owned hr).later (returned_not_mem_outputs _ _ _) (Nat.le_refl _)).scheduled hnew
          hhandled
  | @startReturns id r hthread hr =>
      have howned : Owned (log ++ []) s.next _ r :=
        (h.owned hr).later (by simp) (Nat.le_refl _)
      exact h.update hjobs (Nat.le_refl _) (by simp) (by simp) hr rfl rfl
        ⟨howned.serial_lt, howned.role, howned.object, howned.callback⟩
  | erase hthread =>
      refine h.of_requests hjobs (Nat.le_refl _) (by simp) ?_
      intro id' r hr
      rcases update_eq_some hr with ⟨-, heq⟩ | ⟨-, hr⟩
      · cases heq
      · exact ⟨⟨r, hr, rfl⟩, (h.owned hr).later (by simp) (Nat.le_refl _)⟩
  | @handleReturns job jobs reply hjob =>
      refine h.of_requests hjobs (Nat.le_refl _) (by simp) ?_
      intro id r hr
      rcases update_eq_some hr with ⟨rfl, heq⟩ | ⟨hne, hr⟩
      · obtain ⟨r₀, hr₀, rfl⟩ := Option.map_eq_some_iff.mp heq
        have hserial : (r₀.writeReply job reply).serial = r₀.serial := by
          obtain ⟨obj, heq, -⟩ := r₀.writeReply_eq job reply
          rw [heq]
        exact ⟨⟨r₀, hr₀, hserial⟩, (h.owned hr₀).returns h.jobs hjob⟩
      · exact ⟨⟨r, hr, rfl⟩, (h.owned hr).returns_ne hne⟩
  | @callbackQueued job jobs r hjob hr =>
      refine h.update hjobs (Nat.le_refl _) (by simp) (by simp) hr rfl rfl ?_
      have howned : Owned (log ++ [.completed job]) s.next _ r :=
        (h.owned hr).later (by simp) (Nat.le_refl _)
      refine ⟨howned.serial_lt, howned.role, howned.object, ?_⟩
      intro job' hm
      rcases List.mem_append.mp hm with hm | hm
      · exact howned.callback hm
      · cases List.mem_singleton.mp hm
        exact ⟨by simp, rfl⟩

theorem known {ok : List (Event Id) → System Id Class → Act Id → Prop} {s : System Id Class}
    (h : Machine.Reach (step table) ok {} log s) : Known log s :=
  h.invariant Known ⟨jobsKnown_init, by simp, by simp, by simp⟩
    fun hinv _ hstep => known_step hinv (step_cases hstep)

end System

end Simurga
