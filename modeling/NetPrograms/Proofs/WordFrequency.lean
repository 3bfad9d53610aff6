import NetPrograms.Lib.Tally
import NetPrograms.Lib.CString
import NetPrograms.WordCount.CountWord2

/-! The word count lists the runs of letters of a text, in small letters, each once and
with its number of occurrences. -/

namespace NetPrograms.Proofs.WordFrequency
open WordCount Tally

/-- The words of a text. -/
def words (text : List UInt8) : List (List UInt8) := (runs isalpha text).map (List.map tolower)

/-- The runs that `>>` extracts from a stream. -/
def tokens (iss : List UInt8) : List (List UInt8) := runs (fun ch => !isspace ch) iss

end NetPrograms.Proofs.WordFrequency
