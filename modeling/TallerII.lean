import TallerII.Lib.Run
import TallerII.Lib.Delimited
import TallerII.Lib.Numeral
import TallerII.Basic
import TallerII.Json
import TallerII.Lib.Scan
import TallerII.Store
import TallerII.Person
import TallerII.Manager
import TallerII.PersonManager
import TallerII.Index
import TallerII.Recommendations
import TallerII.Relations
import TallerII.Messages
import TallerII.History
import TallerII.Calls
import TallerII.Steps
import TallerII.Accounts
import TallerII.Atomicity
import TallerII.Identity
import TallerII.Searches
import TallerII.Positions
import TallerII.Skills
import TallerII.Contacts
import TallerII.Session
import TallerII.Provenance
import TallerII.ContactLists
import TallerII.Effects
import TallerII.Http
import TallerII.Handler
import TallerII.Notifications
import TallerII.Queries
import TallerII.Handlers
import TallerII.MessagesHandler
import TallerII.WebHandler
import TallerII.Access
import TallerII.Lib.Ballot
import TallerII.Votes
import TallerII.References
import TallerII.Events
import TallerII.Logins
import TallerII.Tokens
import TallerII.Expiry
import TallerII.Facebook
import TallerII.Delivery
import TallerII.EventLoop
import TallerII.Lib.Lexer
import TallerII.Lib.Sql
import TallerII.Pictures
import TallerII.Categories
import TallerII.UserList
import TallerII.Commands
import TallerII.Lib.JsonText
import TallerII.Lib.QuotedJson
import TallerII.Payloads
import TallerII.Layout
import TallerII.Conversations
import TallerII.Lib.Criteria
import TallerII.SearchUsers
import TallerII.SearchRoles
import TallerII.Conversacion
import TallerII.Paging
import TallerII.Lib.Occurrence
import TallerII.Lib.Percent
import TallerII.SearchRequest
import TallerII.SearchPaging
import TallerII.Unread
import TallerII.Windows
import TallerII.SearchMails
import TallerII.Updates
import TallerII.Lib.Secondary
import TallerII.SearchNames
import TallerII.Independence
import TallerII.UriDecode
import TallerII.UrlIds
import TallerII.QueryIds
import TallerII.Profiles
import TallerII.ScanFamilies
import TallerII.Lib.Within
import TallerII.Requests
import TallerII.Processes
import TallerII.Isolation
import TallerII.GetRequests
import TallerII.Lib.Binary
import TallerII.Lib.Literal
import TallerII.Lib.Loop
import TallerII.Lib.Separated
import TallerII.Doubles
import TallerII.Reader
import TallerII.ReaderTokens
import TallerII.Documents
import TallerII.Writers
import TallerII.Accepted
import TallerII.Loading
import TallerII.Strings
import TallerII.StoredDocuments
import TallerII.Lib.Clients
import TallerII.Perfil
import TallerII.Amistad
