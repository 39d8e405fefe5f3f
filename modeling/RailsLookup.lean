import RailsLookup.Category
import RailsLookup.CommandLine.Arguments
import RailsLookup.CommandLine.Run
import RailsLookup.Declaration
import RailsLookup.Disk.Basic
import RailsLookup.Disk.Edit
import RailsLookup.Disk.Walk
import RailsLookup.Inflection
import RailsLookup.Json.Basic
import RailsLookup.Json.Reader
import RailsLookup.Json.Writer
import RailsLookup.Lookup.Constant
import RailsLookup.Lookup.Context
import RailsLookup.Lookup.Controller
import RailsLookup.Lookup.FixedPath
import RailsLookup.Lookup.Method
import RailsLookup.Lookup.Resolution
import RailsLookup.Lookup.Template
import RailsLookup.Main
import RailsLookup.Namespace
import RailsLookup.Path
import RailsLookup.Protocol.Call
import RailsLookup.Protocol.Capabilities
import RailsLookup.Protocol.Decoder
import RailsLookup.Protocol.DocumentRange
import RailsLookup.Protocol.Message
import RailsLookup.Protocol.Params
import RailsLookup.Protocol.Shape
import RailsLookup.Reference
import RailsLookup.Session.Basic
import RailsLookup.Session.Receive
import RailsLookup.Session.Run
import RailsLookup.Session.Wire
import RailsLookup.Settings.Basic
import RailsLookup.Settings.Load
import RailsLookup.Text.Alphabetic
import RailsLookup.Text.Basic
import RailsLookup.Text.Case
import RailsLookup.Text.CaseRun
import RailsLookup.Text.Cased
import RailsLookup.Text.Character
import RailsLookup.Text.Digits
import RailsLookup.Text.Mark
import RailsLookup.Text.Number
import RailsLookup.Text.Pattern
import RailsLookup.Text.Ranges
import RailsLookup.Text.Search
import RailsLookup.Text.Spot
import RailsLookup.Text.Utf8
import RailsLookup.Toml.Basic
import RailsLookup.Toml.Draft
import RailsLookup.Toml.Reader
import RailsLookup.Toml.Scalar
import RailsLookup.Url.Basic
import RailsLookup.Url.FilePath
import RailsLookup.Url.Host
import RailsLookup.Url.Percent
import RailsLookup.Url.Punycode
import RailsLookup.Url.Reader
import RailsLookup.Proofs.Category.Priority
import RailsLookup.Proofs.Category.Wording
import RailsLookup.Proofs.Declaration.Grammar
import RailsLookup.Proofs.Declaration.Keywords
import RailsLookup.Proofs.Declaration.LineEnds
import RailsLookup.Proofs.Declaration.OneLine
import RailsLookup.Proofs.Declaration.Positions
import RailsLookup.Proofs.Disk.Below
import RailsLookup.Proofs.Disk.Contents
import RailsLookup.Proofs.Disk.Listing
import RailsLookup.Proofs.Disk.Options
import RailsLookup.Proofs.Disk.Visit
import RailsLookup.Proofs.Disk.Walker
import RailsLookup.Proofs.Inflection.Exactness
import RailsLookup.Proofs.Inflection.RoundTrip
import RailsLookup.Proofs.Lookup.Confinement
import RailsLookup.Proofs.Lookup.ControllerNames
import RailsLookup.Proofs.Lookup.Failure
import RailsLookup.Proofs.Lookup.Homes
import RailsLookup.Proofs.Lookup.LineEnds
import RailsLookup.Proofs.Lookup.Methods
import RailsLookup.Proofs.Lookup.RawLines
import RailsLookup.Proofs.Lookup.RenderCalls
import RailsLookup.Proofs.Lookup.Soundness
import RailsLookup.Proofs.Lookup.Spellings
import RailsLookup.Proofs.Lookup.Templates
import RailsLookup.Proofs.Lookup.Tiers
import RailsLookup.Proofs.Protocol.Decoders
import RailsLookup.Proofs.Reference.Chain
import RailsLookup.Proofs.Reference.Characters
import RailsLookup.Proofs.Reference.Cursor
import RailsLookup.Proofs.Reference.Qualifiers
import RailsLookup.Proofs.Session.Documents
import RailsLookup.Proofs.Session.EntryPoints
import RailsLookup.Proofs.Session.Phase
import RailsLookup.Proofs.Session.Workspace
import RailsLookup.Proofs.Settings.Sources
import RailsLookup.Proofs.Text.Boundaries
import RailsLookup.Proofs.Text.Case
import RailsLookup.Proofs.Text.Decoding
import RailsLookup.Proofs.Text.Encoding
import RailsLookup.Proofs.Text.LineEnds
import RailsLookup.Proofs.Text.LineStart
import RailsLookup.Proofs.Text.Literals
import RailsLookup.Proofs.Text.Offsets
import RailsLookup.Proofs.Text.Opening
import RailsLookup.Proofs.Text.Pieces
import RailsLookup.Proofs.Text.Position
import RailsLookup.Proofs.Text.Preference
import RailsLookup.Proofs.Text.Reading
import RailsLookup.Proofs.Text.Steady
import RailsLookup.Proofs.Text.Surroundings
import RailsLookup.Proofs.Url.Authority
import RailsLookup.Proofs.Url.FilePath
import RailsLookup.Proofs.Url.Hierarchy
import RailsLookup.Proofs.Url.Host
import RailsLookup.Proofs.Url.Percent
import RailsLookup.Proofs.Url.Segments
import RailsLookup.Proofs.Url.Spelling
