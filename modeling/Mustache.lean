import Mustache.Engine
import Mustache.Main
import Mustache.Proofs.Store.Indented
import Mustache.Proofs.Template.Kept
import Mustache.Proofs.Template.Seam
import Mustache.Proofs.Render.Behind
import Mustache.Proofs.Render.Composed
import Mustache.Proofs.Escape
import Mustache.Proofs.Render.Inert
import Mustache.Proofs.Token.Tiling
import Mustache.Proofs.Template.Written
import Mustache.Proofs.Template.CrLf
import Mustache.Proofs.Template.NamedPair
import Mustache.Proofs.Template.Remark
import Mustache.Proofs.Template.FirstFault
import Mustache.Proofs.Render.Hosts
import Mustache.Proofs.Store.Answers
import Mustache.Proofs.Store.Search
import Mustache.Proofs.Store.Settled
import Mustache.Proofs.Store.History
import Mustache.Proofs.Command.Eager
import Mustache.Proofs.Engine
import Mustache.Proofs.Render.Calls
import Mustache.Proofs.Render.Substituted
import Mustache.Proofs.Store.Missing
import Mustache.Proofs.Store.Seen
import Mustache.Proofs.Token.Resumed
import Mustache.Proofs.Command.Failure
import Mustache.Proofs.Command.Output
import Mustache.Proofs.Context
import Mustache.Proofs.Render.Acyclic
import Mustache.Proofs.Store.Reported
import Mustache.Proofs.Token.Elided
import Mustache.Proofs.Text.Place
import Mustache.Proofs.Template.OwnLines
import Mustache.Proofs.Render.Regrouped
import Mustache.Proofs.Template.Switching
import Mustache.Proofs.Template.Preorder
