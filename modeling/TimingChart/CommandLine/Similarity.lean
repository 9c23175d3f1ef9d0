import TimingChart.Binary64.Arith

/-!
# Similar words

The similarity of two words is one if they are equal and falls with every letter that is missing,
superfluous or out of place; a common beginning raises it. It is computed in doubles, so that a
comparison with a bound comes out in one way only.
-/

namespace TimingChart.Similarity

/-- Letters of the second word that are taken, the place of the last of them, how many there are,
and how often a letter was found before the last one. -/
structure Matching where
  taken : List Nat
  last : Nat
  found : Nat
  transposed : Nat

/-- Looks for a letter of the first word among the letters of the second that are near enough. -/
def Matching.add (word : List Char) (reach : Nat) (m : Matching) (letter : Char × Nat) : Matching :=
  let (c, place) := letter
  let near := word.zipIdx.find? fun (d, j) =>
    place - reach ≤ j && j ≤ place + reach && d = c && !m.taken.contains j
  match near with
  | none => m
  | some (_, j) =>
    ⟨j :: m.taken, j, m.found + 1, if j < m.last then m.transposed + 1 else m.transposed⟩

def ofNat (n : Nat) : Binary64 := .ofInt n

/-- The similarity by letters alone. -/
def byLetters (a b : List Char) : Binary64 :=
  if a = b then 1
  else if a.isEmpty || b.isEmpty then 0
  else
    let reach := max a.length b.length / 2 - 1
    let m := a.zipIdx.foldl (Matching.add b reach) ⟨[], 0, 0, 0⟩
    if m.found = 0 then 0
    else
      let found := ofNat m.found
      1 / 3 * (found / ofNat a.length + found / ofNat b.length +
        (found - ofNat m.transposed) / found)

/-- The number of letters that two words begin with in common. -/
def commonStart : List Char → List Char → Nat
  | c :: a, d :: b => if c = d then commonStart a b + 1 else 0
  | _, _ => 0

/-- The similarity of two words. -/
def ofWords (a b : List Char) : Binary64 :=
  let letters := byLetters a b
  let raised :=
    letters + .nearest false (mkRat 1 10) * ofNat (commonStart a b) * (1 - letters)
  if raised ≤ 1 then raised else 1

/-- The most similar of some words, the first of equals, if it is more similar than four fifths. -/
def best? (word : String) (words : List String) : Option String :=
  let better (candidate : Option (Binary64 × String)) (other : String) :=
    let similarity := ofWords word.toList other.toList
    let bound := match candidate with
      | some (bound, _) => bound
      | none => .nearest false (mkRat 8 10)
    if bound < similarity then some (similarity, other) else candidate
  (words.foldl better none).map Prod.snd

end TimingChart.Similarity
