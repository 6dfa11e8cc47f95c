import MessageTemplate.Text.Units
import MessageTemplate.Tree.Written
import MessageTemplate.Tree.Outline
import MessageTemplate.Render.Message
import MessageTemplate.Edit.Basic
import MessageTemplate.Edit.Written
import MessageTemplate.Session.Basic
import MessageTemplate.Disk.Basic
import MessageTemplate.Project.Run
import MessageTemplate.Main
import MessageTemplate.Proofs.Edit.Effect
import MessageTemplate.Proofs.Session.Snapshots
import MessageTemplate.Proofs.Session.Reachable
import MessageTemplate.Proofs.Address.Codec
import MessageTemplate.Proofs.Tree.Locating
import MessageTemplate.Proofs.Json.Grammar
import MessageTemplate.Proofs.Json.Words
import MessageTemplate.Proofs.Json.Reading
import MessageTemplate.Proofs.Json.Unions
import MessageTemplate.Proofs.Json.Printing
import MessageTemplate.Proofs.Tree.Stored
import MessageTemplate.Proofs.Session.Reload
import MessageTemplate.Proofs.Session.Moves
import MessageTemplate.Proofs.Session.Unwinding
import MessageTemplate.Proofs.Session.Linking
import MessageTemplate.Proofs.Edit.Focus
import MessageTemplate.Proofs.Session.Cursor
import MessageTemplate.Proofs.Session.Versions
import MessageTemplate.Proofs.Address.Spelling
import MessageTemplate.Proofs.Tree.Normal
import MessageTemplate.Proofs.Json.Fields
import MessageTemplate.Proofs.Tree.Members
import MessageTemplate.Proofs.Tree.Accepted
import MessageTemplate.Proofs.Render.Forms
import MessageTemplate.Proofs.Render.Scanning
import MessageTemplate.Proofs.Render.Reported
import MessageTemplate.Proofs.Tree.Apart
import MessageTemplate.Proofs.Edit.Commuting
import MessageTemplate.Proofs.Project.Editing
import MessageTemplate.Proofs.Session.Atomic
import MessageTemplate.Proofs.Tree.Splicing
import MessageTemplate.Proofs.Edit.Structure
import MessageTemplate.Proofs.Edit.Texts
import MessageTemplate.Proofs.Render.Placeholders
import MessageTemplate.Proofs.Render.Cutting
import MessageTemplate.Proofs.Edit.Rendering
import MessageTemplate.Proofs.Session.Variables
import MessageTemplate.Proofs.Tree.Descent
import MessageTemplate.Proofs.Edit.Checking
import MessageTemplate.Proofs.Session.Limits
import MessageTemplate.Proofs.Session.Typing
import MessageTemplate.Proofs.Edit.Units
import MessageTemplate.Proofs.Json.Records
import MessageTemplate.Proofs.Edit.Messages
import MessageTemplate.Proofs.Project.Messages
import MessageTemplate.Proofs.Disk.Making
import MessageTemplate.Proofs.Project.Founding
