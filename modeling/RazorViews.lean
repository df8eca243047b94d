import RazorViews.Cache.Sweeper
import RazorViews.Main
import RazorViews.Proofs.Source.Grammar
import RazorViews.Proofs.Source.Closed
import RazorViews.Proofs.Pattern.Find
import RazorViews.Proofs.Pattern.Local
import RazorViews.Proofs.Pattern.Counts
import RazorViews.Proofs.ClassRegion.Header
import RazorViews.Proofs.ClassRegion.Between
import RazorViews.Proofs.Member.Lines
import RazorViews.Proofs.Property.Between
import RazorViews.Proofs.Canonical.Syntax
import RazorViews.Proofs.Canonical.Types
import RazorViews.Proofs.Canonical.Signature
import RazorViews.Proofs.Canonical.Lines
import RazorViews.Proofs.Canonical.Region
import RazorViews.Proofs.Canonical.Recognize
import RazorViews.Proofs.Cache.Entries
import RazorViews.Proofs.Cache.Transparent
import RazorViews.Proofs.Cache.History
import RazorViews.Proofs.Cache.Racing
import RazorViews.Proofs.Property.Total
import RazorViews.Proofs.ClassRegion.Opening
import RazorViews.Proofs.ClassRegion.Extent
import RazorViews.Proofs.Cache.Interleaving
import RazorViews.Proofs.Source.Origins
import RazorViews.Proofs.Member.Readings
import RazorViews.Proofs.Member.Grounded
import RazorViews.Proofs.View.Directive
import RazorViews.Proofs.Property.Judged
import RazorViews.Proofs.Workspace.Selection
import RazorViews.Proofs.Generation.Overwrite
import RazorViews.Proofs.Source.Twice
import RazorViews.Proofs.Member.Attached
import RazorViews.Proofs.Member.Inside
import RazorViews.Proofs.Member.Sequence
import RazorViews.Proofs.Member.Spread
import RazorViews.Proofs.Property.Reworded
import RazorViews.Proofs.Property.Regrouped
import RazorViews.Proofs.Metadata.Merged
import RazorViews.Proofs.Metadata.Display
import RazorViews.Proofs.TypeName.Innermost
import RazorViews.Proofs.TypeName.Spelling
import RazorViews.Proofs.Controller.Parameters
import RazorViews.Proofs.Metadata.Genuine
import RazorViews.Proofs.Controller.Nearest
import RazorViews.Proofs.Controller.Operators
import RazorViews.Proofs.Workspace.Found
import RazorViews.Proofs.Workspace.Inside
import RazorViews.Proofs.View.Titles
import RazorViews.Proofs.View.Listed
import RazorViews.Proofs.Settings.Saved
