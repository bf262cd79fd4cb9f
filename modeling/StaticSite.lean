import StaticSite.Main
import StaticSite.Proofs.Markup.Hole
import StaticSite.Proofs.Markup.Document
import StaticSite.Proofs.Markup.OrdinaryText
import StaticSite.Proofs.Markup.Rebuild
import StaticSite.Proofs.Compile.Call
import StaticSite.Proofs.Markup.Reading
import StaticSite.Proofs.Markup.Tags
import StaticSite.Proofs.Compile.Ensures
import StaticSite.Proofs.Compile.Splice
import StaticSite.Proofs.Compile.Found
import StaticSite.Proofs.Compile.Level
import StaticSite.Proofs.Compile.Answers
import StaticSite.Proofs.Compile.Library
import StaticSite.Proofs.Compile.Meaning
import StaticSite.Proofs.Compile.NoTags
import StaticSite.Proofs.Compile.Ends
import StaticSite.Proofs.Component.Probe
import StaticSite.Proofs.Component.Mild
import StaticSite.Proofs.Component.Listing
import StaticSite.Proofs.Component.Leak
import StaticSite.Proofs.Component.Steady
import StaticSite.Proofs.Compile.Faults
import StaticSite.Proofs.Markup.Places
import StaticSite.Proofs.Compile.Settled
import StaticSite.Proofs.Markup.Layers
import StaticSite.Proofs.Markup.Peel
import StaticSite.Proofs.Compile.Twice
import StaticSite.Proofs.Component.Moves
import StaticSite.Proofs.Compile.Inside
import StaticSite.Proofs.Text.LetterCase
import StaticSite.Proofs.Asset.Loaded
import StaticSite.Proofs.Asset.Reading
import StaticSite.Proofs.Asset.DevScript
import StaticSite.Proofs.Text.Moved
import StaticSite.Proofs.Markup.AnyHole
import StaticSite.Proofs.Site.Blocks
import StaticSite.Proofs.Files.Put
import StaticSite.Proofs.Files.Walk
import StaticSite.Proofs.Files.Making
import StaticSite.Proofs.Files.Names
import StaticSite.Proofs.Files.Descendants
import StaticSite.Proofs.Compile.Uniform
import StaticSite.Proofs.Site.Listed
import StaticSite.Proofs.Site.Runs
import StaticSite.Proofs.Site.Extends
import StaticSite.Proofs.Site.Written
import StaticSite.Proofs.Site.Copied
import StaticSite.Proofs.Site.Output
import StaticSite.Proofs.Component.Unaware
import StaticSite.Proofs.Compile.Limit
import StaticSite.Proofs.Files.Proper
import StaticSite.Proofs.Files.Changes
import StaticSite.Proofs.Site.Discovery
import StaticSite.Proofs.Site.Listings
import StaticSite.Proofs.Site.Frame
import StaticSite.Proofs.Site.Retrace
import StaticSite.Proofs.Site.Stages
import StaticSite.Proofs.Site.Again
import StaticSite.Proofs.Compile.Unread
import StaticSite.Proofs.Component.Closed
import StaticSite.Proofs.Component.Search
import StaticSite.Proofs.Component.Composition
import StaticSite.Proofs.Files.Suffixes
import StaticSite.Proofs.Component.SearchOrder
import StaticSite.Proofs.Component.Reach
import StaticSite.Proofs.Files.Matching
import StaticSite.Proofs.Component.Identifiers
import StaticSite.Proofs.Asset.Candidates
import StaticSite.Proofs.Site.Requests
import StaticSite.Proofs.Compile.Cycle
import StaticSite.Proofs.Markup.Template
import StaticSite.Proofs.Markup.Binding
import StaticSite.Proofs.Markup.BindingOrder
import StaticSite.Proofs.Compile.Factors
import StaticSite.Proofs.Site.LeftOver
import StaticSite.Proofs.Asset.InlinedAgain
import StaticSite.Proofs.Table
import StaticSite.Proofs.Markup.RoundTrip
import StaticSite.Proofs.Markup.WordEnds
import StaticSite.Proofs.Markup.Directive
import StaticSite.Proofs.Asset.NameReader
import StaticSite.Proofs.Asset.Reference
import StaticSite.Proofs.Compile.Marker
import StaticSite.Proofs.Component.Separators
import StaticSite.Proofs.Component.Visits
import StaticSite.Proofs.Component.ProducerSuffix
import StaticSite.Proofs.Site.Starter
import StaticSite.Proofs.Command.Init
import StaticSite.Proofs.Terminal.Stripping
