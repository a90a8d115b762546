import Simurga.Template
import Simurga.TemplatePrint
import Simurga.TemplateGrammar
import Simurga.TemplateStructure
import Simurga.Database
import Simurga.ModelColor
import Simurga.HttpService
import Simurga.Pages
import Simurga.ModelUri
import Simurga.Routing
import Simurga.Article
import Simurga.ColorName
import Simurga.JobQueue
import Simurga.Manager
import Simurga.ManagerStep
import Simurga.ManagerJobs
import Simurga.ManagerOwner
import Simurga.ManagerStale
import Simurga.ManagerErase
import Simurga.WebServer
import Simurga.ManagerServer
import Simurga.Handle
import Simurga.DirConfig
import Simurga.Images
import Simurga.PhotoScript
import Simurga.Store
import Simurga.Admin
import Simurga.Renumber
import Simurga.TemplateConcat
import Simurga.TemplateFlat
import Simurga.TemplateOpaque
import Simurga.TemplateTags
import Simurga.ConfigFile
import Simurga.Lib.Flags
import Simurga.Sizes
import Simurga.Lib.Batch
import Simurga.SpecialPrice
import Simurga.Views
import Simurga.Prices
import Simurga.Lib.Fuel
import Simurga.TemplateProgress
import Simurga.ConfigStream
import Simurga.JobQueueGuard
import Simurga.HeadGet
import Simurga.Lib.Regex
import Simurga.Prompt
import Simurga.Lib.BigEndian
import Simurga.Lib.Framing
import Simurga.Lib.Memory
import Simurga.Protocol
import Simurga.Lib.Tiling
import Simurga.SendBuffer
import Simurga.Transceiver
import Simurga.Transmit
import Simurga.Sink
import Simurga.Params
import Simurga.LocalHandler
import Simurga.Wire
import Simurga.Receive
import Simurga.Server
import Simurga.ManagerSleep
import Simurga.UrlEncoded
import Simurga.Forms
