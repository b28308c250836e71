import AccessReview.Text.WhiteSpace
import AccessReview.Text.Control
import AccessReview.Text.Quoted
import AccessReview.Text.Utf8
import AccessReview.Binary64.Nearest
import AccessReview.Binary64.Shortest
import AccessReview.Codec.Base64
import AccessReview.Json.Fault
import AccessReview.Json.Reader
import AccessReview.Json.Scan
import AccessReview.Json.Number
import AccessReview.Json.Skip
import AccessReview.Json.Written
import AccessReview.Error
import AccessReview.Text.Integer
import AccessReview.Name
import AccessReview.PrincipalId
import AccessReview.Resource
import AccessReview.RoleKey
import AccessReview.Grant
import AccessReview.Text.Split
import AccessReview.Principal
import AccessReview.Vocabulary
import AccessReview.Permission
import AccessReview.Statement
import AccessReview.Pager
import AccessReview.MappingCache
import AccessReview.Token.Envelope
import AccessReview.Token
import AccessReview.Grant.Json
import AccessReview.Table
import AccessReview.LruTable
import AccessReview.Store
import AccessReview.Inventory
import AccessReview.Identity
import AccessReview.Synthesis
import AccessReview.Walk
import AccessReview.Connector
import AccessReview.Provision
import AccessReview.Session
import AccessReview.Proofs.Base64
import AccessReview.Proofs.Utf8
import AccessReview.Proofs.Reads
import AccessReview.Proofs.WrittenString
import AccessReview.Proofs.RoleKeyText
import AccessReview.Proofs.EnvelopeParts
import AccessReview.Proofs.TokenCodec
import AccessReview.Proofs.TokenState
import AccessReview.Proofs.PageStep
import AccessReview.Proofs.Reach
import AccessReview.Proofs.Drain
import AccessReview.Proofs.Discovery
import AccessReview.Proofs.Completion
import AccessReview.Proofs.RoleLimit
import AccessReview.Proofs.StatementText
import AccessReview.Proofs.Provisioning
import AccessReview.Proofs.PermissionPages
import AccessReview.Proofs.CacheServe
import AccessReview.Proofs.CacheBlind
import AccessReview.Proofs.CacheTransparency
import AccessReview.Proofs.OffsetPaging
import AccessReview.Proofs.TraversalShape
import AccessReview.Proofs.LruRefinement
import AccessReview.Proofs.UserCreation
import AccessReview.Proofs.RoleResources
import AccessReview.Proofs.GrantSynthesis
import AccessReview.Proofs.StatementChecks
import AccessReview.Proofs.GrantUndo
import AccessReview.Proofs.PermissionCodes
import AccessReview.Proofs.EntitlementText
import AccessReview.Proofs.SiblingOrder
