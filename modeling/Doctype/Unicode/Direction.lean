import Doctype.Unicode.Table

/-!
The direction of characters, as far as the rule for labels with text from right to left tells
them apart. The table tells this of the characters that a domain name may hold.
-/

namespace Doctype.Unicode

/-- The direction of a character: written from left to right or from right to left, a digit of
either kind, a mark, or without a direction. -/
inductive Direction
  | left
  | right
  | europeanDigit
  | arabicDigit
  | mark
  | neutral
  deriving DecidableEq

/-- The text of the table: L, R, E, N, M and O. -/
def directionRuns : String :=
  "30O aE 27O 1aL 64O 18L O 1c1L 2O 7L eO 2L 1cO L 11O 71M 4L 2O 7fL 2O 8bL 8M ffL 7O 2dM R M R
   2M R 2M R 9M 36R 2O R 2O R O R 2O bM 30R 15M aN O 2N 3R M 65R 8M O 6M 2R 2M O 4M 2R aE 17R M
   1eR 1dM 59R bM 3aR 9M 2R 4O 3R M 18R 4M R 9M R 3M R 7M 29R 5M 39R 9M 2aR 39M 37L M L M 4L 8M
   4L M 3L fM 2L 2M 1dL M 3aL M 4L 6M 6L M 14L 4M cL 2O 7L O 2L 5M 39L 2M 3L 1bM 14L 2M 3L M bL
   2M 39L M 4L 8M 4L 3M 12L 4M bL 8O L 8M 3aL M 2L M L 6M 6L aM bL 4M 1cL M 3dL M cL 3M 23L dO
   M 3L M 37L M L 3M 5L 12M aL 4M 12L 7O 2L M 3aL M fL 9M dL 4M 1aL 2M 39L 2M 4L 5M 7L M 14L 4M
   1bL M 48L 5M 3L 6M 59L M 2L bM O 7L 8M 62L M 2L 9M bL 8M 48L 2M 1bL M L M L M 4O 33L eM L 5M
   L 2M 5L 31M 8L M 66L 4M L 6M L 2M 2L 2M 19L 2M 4L 3M 10L 4M dL M 2L 2M 6L M fL M 2bfL 3M 30L
   10O 60L O 29aL 5O 72L 3M 1dL 2M 1eL eM 12L eM 37L 7M 8L M 2L bM 7L O L 3M 10L 20O 75L 2M 22L
   M 76L 3M 4L 2M 9L M 6L 7M 6O 98L 22O 17L 2M 2L 3M 38L M L 9M L M 2L 8M 6L dM 30L 54M 30L M L
   4M 31L 9M cL 2M 20L 4M 2L 2M L 3M 38L M L 2M 3L M L 3M 3aL 8M 2L 5M 95L 3M L dM L 7M 4L M 6L
   M 3L 2M c6L 41M 20bL c4O 34M 4aO 3cL 1acO 45L 1aO L 316O L 153O 100L 330O b5L 7O 3L 4M 6L 7O
   7fL M 60L 20M 205O 3L 19O 9L 4M 2L O 6L 4O 2L 4O 58L 4M 3L O 5aL O c4L 30O 1bd0L 40O 5690L
   40O 13dL 3O 5fL 4M O aM 3O 1dL 2M 50L 2M eL 23O 65L O 79L M 3L M 4L M 19L 2M L 4O 4M 8L 8O
   34L cO 44L aM 12L 12M dL M 26L 8M 19L bM 2eL 3M 30L M 2L 4M 2L 2M 27L M 43L 6M 2L 2M 2L bM
   3L M 8L M 2fL M 33L M L 3M 2L 2M 5L 2M L M 2aL 2M 8L bM 69L 56O 25L M 2L M 4L 3M 4f2eL 94M
   11R 25dO 25M 2eO 18dR 101L O 3eL 4dO 3L 40O 2dL 83M 60L M 1fE 76L aM 480L 11fR O e1R fM 28R
   8M a5R 6M 4eR 7O 1e4R cM 1aN 1fR 5M O f1R 20N 2bR 2M 23R 2aO 6M 46R bM 31R 4M 7aR L M 36L fM
   bL 14O aL M 2L 2M aL 3M 31L 4M 2L 2M 7L eM 30L 3M 24L 5M L 9M 3dL M cL 2M 34L 9M aL 4M 2L M
   5fL 3M 2L M L 2M 6L M 2L 3fM 5fL M 3L dM 10L 2M 39L 2M 3L M 25L 1aM 3bL 7M cL M L M L M eL
   1fM 38L 8M 2L 3M L M 17L M 54L 6M L M 4L 2M L 2M eeL 6M 4L 2M L 2M 1bL 24M 33L 8M 2L M L 2M
   1fL 20O 2bL M L M 2L 6M L M 65L M L M 2L 4M L 9M ffL 9M L 2M 100L 2M L M 4L M 90L 8M 4L M
   20L 6M 2L 2M 28L 6M 2L 4M 8L 9M L 6M 2L 3M 2eL dM L 2M c6L M L 3M L M c9L eM 54L 17M L 7M L
   2M L 4bM 31L 15M L 9M 40L 3M 2L M L M 15bL 2M bL 2M 34L 8M 2L M L M 17L 56M 25L 2aO 1441L M
   6L 19M 2cbeL cM 3L 3M 9c0L 5M 3bL 7M 418L M 3fL 4M 4fL O L cM 21b0L 1e50O cadL 2M f61L 300O
   50M 217L 3M 11L 8M 2L 7M 1eL 4M 3bL 59O 3M 7bO 40L 60O 6a0L 37M 4L 32M 8L M eL M 16L 465M
   100L 100M 30L 7M 177L 12M 2cL 4M fL 1d1O 1cL 4M feL 2M f3L M 2L M 7L 2M 5L 9M 102L d0R 52M
   22R 7M 5a5R 260O 1dL 3O 3dL 39O 7aL da0O f0000L"

def Direction.read (t : Text) : Direction :=
  if t = ['L'] then left
  else if t = ['R'] then right
  else if t = ['E'] then europeanDigit
  else if t = ['N'] then arabicDigit
  else if t = ['M'] then mark
  else neutral

def directionTable : Table Direction :=
  Table.read Direction.read directionRuns

def direction (c : Char) : Direction :=
  directionTable.value .left c

/-- Whether a character makes a domain name one with text from right to left. -/
def isRightToLeft (c : Char) : Bool :=
  direction c = .right || direction c = .arabicDigit

namespace Direction

def dropMarks (ds : List Direction) : List Direction :=
  (ds.reverse.dropWhile (· = mark)).reverse

/-- Whether directions keep the rule for a label that begins from left to right. -/
def isLeftLabel (ds : List Direction) : Bool :=
  ds.all (fun d => d = left || d = europeanDigit || d = mark || d = neutral) &&
    match (dropMarks ds).getLast? with
    | some d => d = left || d = europeanDigit
    | none => true

def isRightLabel (ds : List Direction) : Bool :=
  ds.all (· ≠ left) && !(ds.contains europeanDigit && ds.contains arabicDigit) &&
    match (dropMarks ds).getLast? with
    | some d => d = right || d = europeanDigit || d = arabicDigit
    | none => true

/-- Whether directions keep the rule for a label of a domain name that has text from right to
left. -/
def isLabel : List Direction → Bool
  | [] => true
  | left :: ds => isLeftLabel (left :: ds)
  | right :: ds => isRightLabel (right :: ds)
  | _ => false

end Direction
end Doctype.Unicode
