import EnumTables.FileSystem.Changes
import EnumTables.Main
import EnumTables.Proofs.CommandLine.Printed
import EnumTables.Proofs.Config.RoundTrip
import EnumTables.Proofs.Constant.Accounted
import EnumTables.Proofs.Constant.Attached
import EnumTables.Proofs.Constant.Members
import EnumTables.Proofs.Constant.Names
import EnumTables.Proofs.Declaration.Body
import EnumTables.Proofs.Declaration.Comments
import EnumTables.Proofs.Declaration.Concatenation
import EnumTables.Proofs.Declaration.Contents
import EnumTables.Proofs.Declaration.Leftmost
import EnumTables.Proofs.Declaration.Nesting
import EnumTables.Proofs.Declaration.Parts
import EnumTables.Proofs.Document.Assembled
import EnumTables.Proofs.Document.Lines
import EnumTables.Proofs.Document.Markdown
import EnumTables.Proofs.FileSystem.Discovered
import EnumTables.Proofs.FileSystem.Growth
import EnumTables.Proofs.FileSystem.Joined
import EnumTables.Proofs.FileSystem.Linked
import EnumTables.Proofs.FileSystem.Listing
import EnumTables.Proofs.FileSystem.Rediscovered
import EnumTables.Proofs.FileSystem.Relisted
import EnumTables.Proofs.FileSystem.Sources
import EnumTables.Proofs.FileSystem.Walk
import EnumTables.Proofs.FileSystem.Written
import EnumTables.Proofs.Json.Lossless
import EnumTables.Proofs.Json.Reader
import EnumTables.Proofs.Path.Names
import EnumTables.Proofs.Path.Order
import EnumTables.Proofs.Printed.Declarations
import EnumTables.Proofs.Run.After
import EnumTables.Proofs.Run.Again
import EnumTables.Proofs.Run.Decoded
import EnumTables.Proofs.Run.Generate
import EnumTables.Proofs.Run.Init
import EnumTables.Proofs.Run.Overwritten
import EnumTables.Proofs.Run.Rewritten
import EnumTables.Proofs.Run.Steps
import EnumTables.Proofs.Run.Stopped
import EnumTables.Proofs.Run.Targets
import EnumTables.Proofs.Run.Untouched
import EnumTables.Proofs.Text.Utf8
import EnumTables.Proofs.Token.Blanked
import EnumTables.Proofs.Token.Literals
import EnumTables.Proofs.Token.Closer
import EnumTables.Proofs.Token.Replaced
import EnumTables.Proofs.Token.Session
import EnumTables.Proofs.Toml.Quoted
import EnumTables.Token.Cursor
