/-!
# Sorted texts

Texts in the order of their characters, each once.
-/

namespace ProviderSdk.Text

/-- A text put into a sorted list, unless it is there. -/
def insertSorted (s : String) : List String → List String
  | [] => [s]
  | t :: rest =>
    if s = t then t :: rest
    else if s < t then s :: t :: rest
    else t :: insertSorted s rest

def sortedSet (ss : List String) : List String := ss.foldr insertSorted []

end ProviderSdk.Text
