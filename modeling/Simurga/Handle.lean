import Simurga.Manager
import Simurga.Pages

/-!
# Handlers and their exceptions

`HttpObject::handle` (`httpservice.cpp`): the handler of the method is
called, and what it throws becomes the reply. A handler works on its object
through the protected operations of `httpservice.hpp`, so it may have
changed any result field when it throws. The two `catch` branches set three
of the four fields again; `response_atomic_iff` says what comes of the
fourth.
-/

namespace Simurga

variable {Class : Type}

/-! ## `handle` -/

/-- A `const char*` assigned to a string. -/
def cString (s : Bytes) : Bytes := s.takeWhile (· ≠ 0)

/-- `e.what()`. The text of `std::out_of_range` is the library's. -/
def Thrown.what (outOfRange : Bytes) : Thrown → Bytes
  | .runtimeError what => what
  | .outOfRange => outOfRange
  | .httpException _ what => what
  | .outOfFuel => []

/-- `InvalidMethod`. -/
def invalidMethod : Thrown :=
  .httpException (bytes "405 Method Not Allowed") (bytes "Method is not allowed for this object")

/-- A handler: the object as it leaves it, and what it throws. -/
abbrev Handler (Class : Type) := Bytes → HttpObject Class → HttpObject Class × Option Thrown

/-- The virtual functions of a child of `HttpObject`. -/
structure Handlers (Class : Type) where
  get : Handler Class := fun _ obj => (obj, some invalidMethod)
  head : Handler Class := get
  create : Handler Class := fun _ obj => (obj, some invalidMethod)
  update : Handler Class := fun _ obj => (obj, some invalidMethod)
  remove : Handler Class := fun _ obj => (obj, some invalidMethod)

/-- The `switch` of `handle`. -/
def Handlers.call (handlers : Handlers Class) : RequestMethod → Handler Class
  | .head => handlers.head
  | .get => handlers.get
  | .put => handlers.create
  | .post => handlers.update
  | .delete => handlers.remove
  | .error | .trace | .options | .connect => fun _ obj => (obj, some invalidMethod)

namespace HttpObject

/-- The `catch` branches of `handle`. -/
def caught (obj : HttpObject Class) (outOfRange : Bytes) : Thrown → HttpObject Class
  | .httpException status what =>
      { obj with contentType := bytes "text/plain", data := cString what, status := status }
  | e =>
      { obj with contentType := bytes "text/plain", status := bytes "500 Internal Server Error"
                 data := cString (e.what outOfRange) }

/-- `HttpObject::handle`. -/
def handle (handlers : Handlers Class) (outOfRange : Bytes) (method : RequestMethod) (id : Bytes)
    (obj : HttpObject Class) : HttpObject Class :=
  match handlers.call method id obj with
  | (obj, none) => obj
  | (obj, some e) => obj.caught outOfRange e

/-! ## The protected operations -/

/-- `set_page(config, body)`. -/
def setPageConfig (obj : HttpObject Class) (templates : TemplateList)
    (config : List (Bytes × Bytes)) (body : Bytes) : Except Thrown (HttpObject Class) := do
  let args := addArgument noArguments (bytes "base_uri") (obj.path ++ bytes "/")
  let args := config.foldl (fun args (name, value) => addArgument args name value) args
  let args := addArgument args (bytes "body") body
  let main ← templates.get (bytes "main")
  let data ← yield main args
  pure { obj with data := data }

def addCustomHeader (obj : HttpObject Class) (header value : Bytes) : HttpObject Class :=
  { obj with customHeaders := obj.customHeaders ++ header ++ bytes ": " ++ value ++ bytes "\r\n" }

def redirect (obj : HttpObject Class) (url : Bytes) : HttpObject Class :=
  { obj with contentType := [], status := bytes "302 Found" }.addCustomHeader (bytes "Location") url

end HttpObject

/-- A call of a protected operation. -/
inductive Operation where
  | setContentType (value : Bytes)
  | setXml
  | setData (data : Bytes)
  | setPage (title body : Bytes)
  | setPageConfig (config : List (Bytes × Bytes)) (body : Bytes)
  | addCustomHeader (header value : Bytes)
  | redirect (url : Bytes)

namespace Operation

/-- The call; `set_page` leaves the object alone when a template throws. -/
def perform (templates : TemplateList) (obj : HttpObject Class) :
    Operation → Except Thrown (HttpObject Class)
  | .setContentType value => .ok { obj with contentType := value }
  | .setXml => .ok { obj with contentType := bytes "application/xml" }
  | .setData data => .ok { obj with data := data }
  | .setPage title body => obj.setPage templates title body
  | .setPageConfig config body => obj.setPageConfig templates config body
  | .addCustomHeader header value => .ok (obj.addCustomHeader header value)
  | .redirect url => .ok (obj.redirect url)

/-- A handler that throws: the object it leaves, the operations that were
done, and the exception, its own or that of an operation. -/
structure Failure (Class : Type) where
  left : HttpObject Class
  done : List Operation
  thrown : Thrown

/-- Operations in a row, and then `throw e`. -/
def performThenThrow (templates : TemplateList) (e : Thrown) :
    List Operation → HttpObject Class → Failure Class
  | [], obj => ⟨obj, [], e⟩
  | op :: ops, obj =>
      match op.perform templates obj with
      | .ok obj =>
          let failure := performThenThrow templates e ops obj
          { failure with done := op :: failure.done }
      | .error thrown => ⟨obj, [], thrown⟩

/-- What the operation appends to the custom headers. -/
def headerText : Operation → Bytes
  | .addCustomHeader header value => header ++ bytes ": " ++ value ++ bytes "\r\n"
  | .redirect url => bytes "Location" ++ bytes ": " ++ url ++ bytes "\r\n"
  | _ => []

/-- `add_custom_header`, or `redirect` that calls it. -/
def addsHeader : Operation → Bool
  | .addCustomHeader _ _ | .redirect _ => true
  | .setContentType _ | .setXml | .setData _ | .setPage _ _ | .setPageConfig _ _ => false

theorem headerText_eq_nil_iff (op : Operation) : op.headerText = [] ↔ op.addsHeader = false := by
  cases op <;> simp [headerText, addsHeader, bytes]

/-! ## What is left of the operations -/

theorem perform_customHeaders {templates : TemplateList} {obj obj' : HttpObject Class}
    {op : Operation} (h : op.perform templates obj = .ok obj') :
    obj'.customHeaders = obj.customHeaders ++ op.headerText := by
  cases op with
  | setContentType value => cases h; exact (List.append_nil _).symm
  | setXml => cases h; exact (List.append_nil _).symm
  | setData data => cases h; exact (List.append_nil _).symm
  | setPage title body =>
      obtain ⟨main, -, h⟩ := bind_eq_ok h
      obtain ⟨data, -, h⟩ := bind_eq_ok h
      cases h
      exact (List.append_nil _).symm
  | setPageConfig config body =>
      obtain ⟨main, -, h⟩ := bind_eq_ok h
      obtain ⟨data, -, h⟩ := bind_eq_ok h
      cases h
      exact (List.append_nil _).symm
  | addCustomHeader header value =>
      cases h
      simp [HttpObject.addCustomHeader, headerText]
  | redirect url =>
      cases h
      simp [HttpObject.redirect, HttpObject.addCustomHeader, headerText]

theorem performThenThrow_customHeaders (templates : TemplateList) (e : Thrown)
    (ops : List Operation) (obj : HttpObject Class) :
    (performThenThrow templates e ops obj).left.customHeaders
      = obj.customHeaders ++ (performThenThrow templates e ops obj).done.flatMap headerText := by
  induction ops generalizing obj with
  | nil => exact (List.append_nil _).symm
  | cons op ops ih =>
      rw [performThenThrow]
      cases h : op.perform templates obj with
      | error thrown => exact (List.append_nil _).symm
      | ok obj' =>
          dsimp only
          rw [ih obj', perform_customHeaders h, List.flatMap_cons, List.append_assoc]

end Operation

/-! ## The response -/

/-- The branches set every field of a reply but the custom headers. -/
theorem HttpObject.caught_reply (obj obj' : HttpObject Class) (outOfRange : Bytes) (e : Thrown) :
    (obj.caught outOfRange e).reply
      = { (obj'.caught outOfRange e).reply with customHeaders := obj.customHeaders } := by
  cases e <;> rfl

theorem finishText_customHeaders_inj (method : RequestMethod) (reply : Reply) (headers : Bytes) :
    finishText method { reply with customHeaders := headers } = finishText method reply
      ↔ headers = reply.customHeaders := by
  constructor
  · intro h
    unfold finishText at h
    exact List.append_cancel_left (List.append_cancel_right (List.append_cancel_right h))
  · rintro rfl
    rfl

/-- The response to a handler that throws is the response to throwing at
once if and only if none of the operations done before the throw added a
header. -/
theorem response_atomic_iff (templates : TemplateList) (outOfRange : Bytes) (e : Thrown)
    (ops : List Operation) {handlers handlers' : Handlers Class} {method : RequestMethod}
    {id : Bytes} {obj : HttpObject Class}
    (h : handlers.call method id obj = ((Operation.performThenThrow templates e ops obj).left,
      some (Operation.performThenThrow templates e ops obj).thrown))
    (h' : handlers'.call method id obj
      = (obj, some (Operation.performThenThrow templates e ops obj).thrown)) :
    finishText method (obj.handle handlers outOfRange method id).reply
        = finishText method (obj.handle handlers' outOfRange method id).reply
      ↔ ∀ op ∈ (Operation.performThenThrow templates e ops obj).done, op.addsHeader = false := by
  have hheaders := Operation.performThenThrow_customHeaders templates e ops obj
  revert h h' hheaders
  generalize Operation.performThenThrow templates e ops obj = failure
  intro h h' hheaders
  have hcaught' : (obj.caught outOfRange failure.thrown).reply.customHeaders = obj.customHeaders := by
    cases failure.thrown <;> rfl
  unfold HttpObject.handle
  rw [h, h']
  dsimp only
  rw [failure.left.caught_reply obj, finishText_customHeaders_inj, hcaught', hheaders,
    List.append_right_eq_self, List.flatMap_eq_nil_iff]
  exact forall_congr' fun op => forall_congr' fun _ => op.headerText_eq_nil_iff

/-- A `get` that does `ops` and then throws `notFound`. -/
def sampleHandlers (ops : List Operation) : Handlers ObjectClass where
  get _ obj :=
    let failure := Operation.performThenThrow (fun _ => none) notFound ops obj
    (failure.left, some failure.thrown)

def sampleObject : HttpObject ObjectClass := { objectClass := .staticPage }

theorem response_atomic_iff_sample :
    finishText .get (sampleObject.handle (sampleHandlers [.setXml, .setData []]) [] .get []).reply
        = finishText .get (sampleObject.handle (sampleHandlers []) [] .get []).reply
      ↔ ∀ op ∈ [Operation.setXml, .setData []], op.addsHeader = false :=
  response_atomic_iff (fun _ => none) [] notFound [.setXml, .setData []] rfl rfl

/-- A 404 with a `Location`. -/
theorem response_not_atomic :
    finishText .get
        (sampleObject.handle (sampleHandlers [.redirect (bytes "/contacts")]) [] .get []).reply
      ≠ finishText .get (sampleObject.handle (sampleHandlers []) [] .get []).reply := by
  decide +kernel

end Simurga
