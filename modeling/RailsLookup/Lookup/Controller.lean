import RailsLookup.Path
import RailsLookup.Text.Search

/-! # Controller files

A controller lives in `controllers/<name>_controller.rb`; the name may have directories.
-/

namespace RailsLookup

open Pattern in
def Path.controllerName? (p : Path) : Option Text :=
  let inLine (c : Char) : Bool := c != '\n'
  capture? (lit "/controllers/".toList) (one inLine ++ most inLine)
    (lit "_controller.rb".toList ++ finish) (Text.replaceChar '\\' '/' p.display)

end RailsLookup
