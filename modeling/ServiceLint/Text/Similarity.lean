/-!
# Similarity of names (`linter.rules.unknown_remote_method`)

A known name is suggested for an unknown one by their similarity. The measure is that of a package; what is done with it
depends on comparing two scores exactly.
-/
namespace ServiceLint

/-- The measure of similarity of two words (`strsim.jaro_winkler`). -/
class Similarity where
  jaroWinkler : List Char → List Char → Float

namespace Text

/-- Scores below this are no suggestion (`SUGGESTION_THRESHOLD`). -/
def suggestionThreshold : Float := 0.8

/-- The known name most similar to `name`, the last one among equals, if it is similar enough. -/
def suggest? [Similarity] (name : String) (known : List String) : Option String :=
  let better (best : Option (Float × String)) (k : String) : Option (Float × String) :=
    let score := Similarity.jaroWinkler name.toList k.toList
    if score ≥ suggestionThreshold then
      match best with
      | none => some (score, k)
      | some (top, previous) => if top ≤ score then some (score, k) else some (top, previous)
    else best
  (known.foldl better none).map (·.2)

end Text

end ServiceLint
