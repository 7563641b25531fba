namespace Bhasha.Text

/-- A stretch that two texts have in common: where it starts in each, and its length. -/
structure Stretch where
  left : Nat := 0
  right : Nat := 0
  size : Nat := 0

/-- From the lengths of the common stretches that end one place before, those that end at `c` and
each place of `b`. -/
def stretchRow (rare : Char → Bool) (c : Char) : List Char → (before : Nat) → List Nat → List Nat
  | [], _, _ => []
  | d :: b, before, row =>
    (if c == d && rare d then before + 1 else 0) :: stretchRow rare c b (row.headD 0) row.tail

/-- The longest entry of a row that beats `best`; of equals, the first. -/
def bestInRow (i : Nat) : (j : Nat) → List Nat → Stretch → Stretch
  | _, [], best => best
  | j, k :: row, best =>
    bestInRow i (j + 1) row
      (if best.size < k then { left := i + 1 - k, right := j + 1 - k, size := k } else best)

def longestFrom (rare : Char → Bool) (b : List Char) :
    (i : Nat) → List Char → List Nat → Stretch → Stretch
  | _, [], _, best => best
  | i, c :: a, row, best =>
    let row' := stretchRow rare c b 0 row
    longestFrom rare b (i + 1) a row' (bestInRow i 0 row' best)

/-- How far two texts agree from their start. -/
def commonLength : List Char → List Char → Nat
  | c :: a, d :: b => if c == d then commonLength a b + 1 else 0
  | _, _ => 0

/-- The longest stretch that `a` and `b` have in common, found by its `rare` characters and then
drawn out by any. -/
def longestStretch (rare : Char → Bool) (a b : List Char) : Stretch :=
  let s := longestFrom rare b 0 a (b.map fun _ => 0) {}
  let back := commonLength (a.take s.left).reverse (b.take s.right).reverse
  let on := commonLength (a.drop (s.left + s.size)) (b.drop (s.right + s.size))
  { left := s.left - back, right := s.right - back, size := s.size + back + on }

/-- The length of the longest common stretch, and so on to the left and to the right of it. -/
def matchedLength (rare : Char → Bool) : (budget : Nat) → List Char → List Char → Nat
  | 0, _, _ => 0
  | n + 1, a, b =>
    let s := longestStretch rare a b
    if s.size = 0 then 0
    else s.size + matchedLength rare n (a.take s.left) (b.take s.right) +
      matchedLength rare n (a.drop (s.left + s.size)) (b.drop (s.right + s.size))

/-- In a text of 200 characters or more, one that makes up over a hundredth of it is not rare. -/
def isRareIn (b : List Char) (c : Char) : Bool :=
  b.length < 200 || b.count c ≤ b.length / 100 + 1

/-- How alike two texts are: twice what matches, over their joint length. -/
structure Likeness where
  twice : Nat
  length : Nat
  text : String

def likeness (word x : String) : Likeness :=
  let b := word.toList
  let a := x.toList
  { twice := 2 * matchedLength (isRareIn b) (a.length + 1) a b
    length := a.length + b.length
    text := x }

/-- Three fifths is alike enough. Two empty texts are alike. -/
def Likeness.enough (l : Likeness) : Bool :=
  3 * l.length ≤ 5 * l.twice

/-- More alike first; of equally alike texts the one that is later in the alphabet. -/
def Likeness.before (l m : Likeness) : Bool :=
  let x := l.twice * m.length
  let y := m.twice * l.length
  y < x || (x == y && m.text ≤ l.text)

/-- The names most like `word`, at most three. -/
def closeMatches (word : String) (names : List String) : List String :=
  ((((names.map (likeness word)).filter Likeness.enough).mergeSort Likeness.before).take 3).map
    Likeness.text

end Bhasha.Text
