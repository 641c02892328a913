import Lehce.Text.Case
import Lehce.Text.Space

/-!
# Words for true

How a text that somebody typed is read as a truth value, in English and in Turkish.
-/

namespace Lehce.Text

/-- The words that mean true, in lower case. -/
def trueWords : List String := ["true", "t", "yes", "y", "1", "doğru", "evet", "e"]

/-- Whether a text means true; letter case and white space around it do not count. -/
def meansTrue (text : String) : Bool := trueWords.contains (lower (trim text))

end Lehce.Text
