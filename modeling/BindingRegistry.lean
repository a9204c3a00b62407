import BindingRegistry.Dict
import BindingRegistry.Number.Decimal
import BindingRegistry.Number.Word
import BindingRegistry.Number.Signed
import BindingRegistry.Text.Blank
import BindingRegistry.Text.Category
import BindingRegistry.Text.Quoted
import BindingRegistry.Text.Utf8
import BindingRegistry.Json.Text
import BindingRegistry.Json.Reader
import BindingRegistry.Time.Reading
import BindingRegistry.Error
import BindingRegistry.TypeMap
import BindingRegistry.Param.Decode
import BindingRegistry.Converters.Builtin
import BindingRegistry.Engine
import BindingRegistry.Registry.Builder
import BindingRegistry.Registry.Selection
import BindingRegistry.Registry.Exposure
import BindingRegistry.Registry.Describe
import BindingRegistry.Remote.Local
import BindingRegistry.Remote.Http
import BindingRegistry.Filters.Stock
import BindingRegistry.Pattern.Reader
import BindingRegistry.Catalogue.Customs
import BindingRegistry.Session
import BindingRegistry.Session.Coercion
import BindingRegistry.Session.Exchange
import BindingRegistry.Session.Sets
import BindingRegistry.Proofs.Invocation.Assembly
import BindingRegistry.Proofs.Invocation.Chain
import BindingRegistry.Proofs.Invocation.Course
import BindingRegistry.Proofs.Registry.Lookup
import BindingRegistry.Proofs.Registry.History
import BindingRegistry.Proofs.Registry.Marks
import BindingRegistry.Proofs.Remote.Forwarding
import BindingRegistry.Proofs.Remote.Hops
import BindingRegistry.Proofs.Invocation.Arity
import BindingRegistry.Proofs.Registry.Enumeration
import BindingRegistry.Proofs.Registry.Flat
import BindingRegistry.Proofs.Registry.Refinement
import BindingRegistry.Proofs.Registry.Defaults
import BindingRegistry.Proofs.Registry.Ledger
import BindingRegistry.Proofs.Registry.Revision
import BindingRegistry.Proofs.Number.Widening
import BindingRegistry.Proofs.Param.RoundTrip
import BindingRegistry.Proofs.Invocation.Gate
import BindingRegistry.Proofs.Registry.Filters
import BindingRegistry.Proofs.Invocation.PartialApplication
import BindingRegistry.Proofs.Registry.Independence
import BindingRegistry.Proofs.Registry.Descriptions
import BindingRegistry.Proofs.Registry.DottedNames
import BindingRegistry.Proofs.Registry.Groups
import BindingRegistry.Proofs.Registry.Exposures
import BindingRegistry.Proofs.Remote.Headers
import BindingRegistry.Proofs.Remote.Correlation
import BindingRegistry.Proofs.Remote.Withholding
import BindingRegistry.Proofs.Invocation.Placement
import BindingRegistry.Proofs.Number.Spelling
import BindingRegistry.Proofs.Param.IntegerText
import BindingRegistry.Proofs.Injection.Merging
import BindingRegistry.Proofs.Invocation.Precedence
import BindingRegistry.Proofs.Time.Calendar
import BindingRegistry.Proofs.Time.Matching
import BindingRegistry.Proofs.Time.Written
import BindingRegistry.Proofs.Time.Days
import BindingRegistry.Proofs.Time.Millis
import BindingRegistry.Proofs.Param.Collections
import BindingRegistry.Proofs.Param.Casting
import BindingRegistry.Proofs.Time.RoundTrip
import BindingRegistry.Proofs.Time.Zones
import BindingRegistry.Proofs.Param.Fallthrough
import BindingRegistry.Proofs.Time.Openings
import BindingRegistry.Proofs.Time.Relaxed
import BindingRegistry.Proofs.Param.Optional
import BindingRegistry.Proofs.Text.Split
import BindingRegistry.Proofs.Remote.Address
import BindingRegistry.Proofs.Remote.Path
import BindingRegistry.Proofs.Remote.Lines
import BindingRegistry.Proofs.Remote.Target
import BindingRegistry.Proofs.Text.Utf8
import BindingRegistry.Proofs.Json.Grammar
import BindingRegistry.Proofs.Json.Leaves
import BindingRegistry.Proofs.Json.Reading
import BindingRegistry.Proofs.Remote.Replies
import BindingRegistry.Proofs.Registry.Selections
import BindingRegistry.Proofs.Invocation.Resolution
import BindingRegistry.Proofs.Registry.Produced
import BindingRegistry.Proofs.Invocation.Naming
import BindingRegistry.Proofs.Registry.Building
