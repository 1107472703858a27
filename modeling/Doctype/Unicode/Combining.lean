import Doctype.Unicode.Table

/-!
Combining characters: the class that orders a character among those that follow the same base,
and whether a character is a mark. The tables tell this of the characters that a domain name
may hold; any other has the value of the run that it lies in.
-/

namespace Doctype.Unicode

/-- The text of the classes: the letter K and the class in hexadecimal digits, left out if it
is zero. -/
def combiningRuns : String :=
  "300K 15Ke6 Ke8 4Kdc Ke8 Kd8 5Kdc 2Kca 4Kdc 2Kca bKdc 5K1 4Kdc aKe6 3Kdc 3Ke6 3Kdc 3Ke6 4Kdc
   Ke6 Ke8 2Kdc Ke6 Ke9 2Kea Ke9 2Kea Ke9 eKe6 112K 5Ke6 109K Kdc 4Ke6 Kdc 3Ke6 Kde Kdc 6Ke6
   6Kdc 2Ke6 Kdc 2Ke6 Kde Ke4 Ke6 Ka Kb Kc Kd Ke Kf K10 K11 K12 2K13 K14 K15 K16 K K17 K K18
   K19 K Ke6 Kdc K K12 48K 8Ke6 K1e K1f K20 30K K1b K1c K1d K1e K1f K20 K21 K22 2Ke6 2Kdc 5Ke6
   Kdc 2Ke6 Kdc 10K K23 65K 8Ke6 K 4Ke6 Kdc Ke6 2K 2Ke6 K Kdc 2Ke6 Kdc 23K K24 1eK Ke6 Kdc 2Ke6
   Kdc 2Ke6 3Kdc Ke6 2Kdc Ke6 Kdc 3Ke6 Kdc Ke6 Kdc Ke6 Kdc Ke6 Kdc 4Ke6 9eK 7Ke6 Kdc Ke6 9K Kdc
   18K 4Ke6 K 9Ke6 K 3Ke6 K 7Ke6 29K 5Kdc 39K 2Ke6 3Kdc 4Ke6 2aK 5Ke6 5Kdc fKe6 Kdc 2Ke6 Kdc
   2Ke6 Kdc 3Ke6 3Kdc K1b K1c K1d 3Ke6 Kdc 2Ke6 2Kdc 5Ke6 3cK K7 10K K9 3K Ke6 Kdc 2Ke6 67K K7
   10K K9 30K 3Ke6 3bK 2K7 fK 4K9 6bK K7 10K 3K9 6cK K7 10K 6K9 7aK 3K9 6cK K7 10K 8K9 K54 2K5b
   64K K7 10K 8K9 66K 2K9 10K K9 7cK 5K9 69K 2K67 5K9 9K 4K6b 6cK 2K76 K9 dK 4K7a 4cK 2Kdc 1bK
   Kdc K Kdc K Kd8 37K K81 2K82 6K84 4K82 2K 2K82 2Ke6 K9 K 2Ke6 3eK Kdc 70K K7 K 2K9 52K Kdc
   2cfK 3Ke6 3b4K bK9 15K K9 9dK K9 aK 3Ke6 c9K Ke4 8fK Kde Ke6 5Kdc d7K Ke6 Kdc 47K K9 14K
   aKe6 Kdc 30K 5Ke6 6Kdc 2Ke6 Kdc K 2Kdc 2Ke6 2Kdc 5Ke6 Kdc 12Ke6 Kdc 2K 6Ke6 Kdc 4Ke6 15Kea
   34K K7 fK K9 26K Ke6 Kdc 7Ke6 36K 2K9 3aK K7 bK aK9 3bK 4K7 95K 3Ke6 K K1 5Kdc 2Ke6 4Kdc Ke6
   K 7K1 4K Kdc 6K Ke6 3K 2Ke6 c6K 2Ke6 Kdc 7Ke6 Kdc 2Ke6 Kea Kd6 Kdc Kca 25Ke6 Ke8 2Ke4 Kdc
   Kda Ke6 Ke9 Kdc Ke6 2Kdc 2cfK 2Ke6 2K1 4Ke6 3K1 2Ke6 4K Ke6 3K 2K1 Ke6 Kdc Ke6 2K1 4Kdc
   14Ke6 bebK 4Ke6 8cK K9 60K 20Ke6 22aK Kda Ke4 Ke8 Kde 2Ke0 69K 4K8 75d2K Ke6 4K aKe6 20K
   2Ke6 50K 2Ke6 114K K9 25K 4K9 94K K9 1bK 12Ke6 39K 3Kdc 25K cK9 54K K7 cK K9 efK Ke6 K 2Ke6
   Kdc 2K 2Ke6 5K 2Ke6 K Ke6 34K bK9 ecK 3K9 4f2eK 94K1a 26eK 7Ke6 7Kdc 17Ke6 3b8K 83Kdc 60K
   Kdc 95K aKe6 68dK Kdc K Ke6 28K Ke6 K1 5Kdc K9 a5K Ke6 5Kdc 239K cKe6 39K 5Ke6 13dK 2Ke6 4dK
   2Kdc K 3Kdc 46K 2Kdc 3Ke6 Kdc Ke6 4Kdc 31K Ke6 Kdc Ke6 Kdc c0K K9 29K K9 eK K9 39K K9 K7 45K
   3Ke6 30K 3K9 3dK K7 4cK K9 9K K7 6aK K9 K7 b2K K7 6K9 4bK 2K7 10K 3K9 16K 1aKe6 4eK 3K9 71K
   K9 3K K7 17K Ke6 63K K9 K7 fbK K9 K7 7eK K9 76K K9 K7 73K 5K9 109K K9 K7 102K 2K9 4K K7 9cK
   K9 53K K9 12K 9K9 49K K9 1a5K K9 102K K7 K 2K9 51K K9 1a9K 2K9 41ecK K9 9c0K 5K1 3bK 7Ke6
   4b9K 2K6 4cacK K1 14c6K 2Kd8 3K1 3K Ke2 dKd8 8Kdc 2K 5Ke6 2Kdc 1eK 4Ke6 94K 3Ke6 dbbK 100Ke6
   30K 7Ke6 177K 12Ke6 2cK 4Ke6 1fcK 2Ke8 Kdc Ke6 feK Ke6 Kdc f3K Ke6 2K Ke6 7K 2Ke6 5K 9Ke6
   1d2K 52Kdc 22K 6Ke6 K7 f16b5K"

/-- The text of the marks: M for a mark, O for any other character. -/
def markRuns : String :=
  "300O 71M 112O 8M 106O 2dM O M O 2M O 2M O 9M 40O bM 30O 15M 10O M 65O 8M O 6M 2O 2M O 4M 23O
   M 1eO 1dM 59O bM 3aO 9M 9O M 18O 4M O 9M O 3M O 7M 29O 5M 39O 9M 2aO 3aM 36O 3M O 12M O fM
   2O 2M 1dO 4M 37O M O 10M 9O 9M 2O 4M 18O 7M 37O 20M 14O 2M 3O M bO 4M 37O M O 12M 12O 4M 14O
   bM 37O M O 21M 3O 4M 1cO M 3bO 12M 7O fM 1aO 5M 37O M O 1aM aO 4M 1bO 3M 38O M O 1eM 6O 4M
   dO 11M 37O 2M O 10M 9O M aO 4M 1bO 4M 45O 1cM cO 2M 3dO M 2O bM 8O 8M 62O M 2O 9M bO 8M 48O
   2M 1bO M O M O M 4O 2M 31O 14M O 2M 5O 31M 8O M 64O 14M 17O 4M 4O 3M O 3M 2O 7M 3O 4M dO cM
   O M aO 4M 2bfO 3M 3b2O dM 13O 3M 1dO eM 12O eM 36O 1eM 9O 3M a5O 2M 22O M 76O 20M d7O 7M 37O
   2bM 30O 55M 2fO 11M 26O 9M cO 3M 1eO dM 38O 16M 28O 17M 95O 3M O 15M 4O M 6O M 2O 3M c6O 41M
   2cfO 34M bebO 4M 8cO M 60O 20M 22aO 6M 69O 4M 75d2O 4M O aM 20O 2M 50O 2M 110O M 3O M 4O M
   17O 5M 4O 4M 50O 2M 32O 1aM 12O 12M dO M 26O 8M 19O 18M 21O 4M 2fO eM 24O M 43O 17M 3O M 8O
   4M 2bO 3M 32O M O 3M 2O 2M 5O 2M O M 29O 5M 5O cM e2O 8M O 4M 4f2eO 94M 26eO 25M 3b8O 83M
   60O M 95O aM 681O fM 28O 8M a5O 6M 239O cM 39O 5M 13dO 2M 4dO 6M 46O bM 31O 4M 7aO 3M 35O fM
   29O M 2O 2M aO 4M 2dO bM 7O eM 30O 3M 24O fM fO 2M 2cO M cO 3M 30O eM 8O 4M O 2M 5cO cM 6O M
   2O 3fM 5fO 11M 10O 5M 36O 2M O 12M 7O 6M 5O 1eM 38O 19M O M eO 1fM 35O 12M 17O M 51O 14M ebO
   12M 1bO 24M 30O 11M 6aO dM 65O 13M fcO fM f5O fM O M O 2M 8dO 10M 3O 1cM O aM 28O 7M O 4M 8O
   9M O bM 2eO 10M c6O 60M 6fO 11M 52O 6eM 31O 15M O 9M 3aO eM 15bO 4M 9O 2M O M 30O fM 17O 56M
   1490O M 6O 19M 2cbeO 12M 9c0O 5M 3bO 7M 418O M O 42M 51O eM 4cabO 2M 1261O 50M 215O 5M 3O
   16M 2O 7M 1eO 4M 94O 3M 7bbO 37M 4O 32M 8O M eO M 16O 465M 100O 100M 30O 7M 177O 12M 2cO 4M
   1fcO 4M feO 2M f3O M 2O M 7O 2M 5O 9M 1d2O 52M 22O 7M f16b5O"

def combiningTable : Table Nat :=
  Table.read (fun t => Text.ofDigits 16 (t.drop 1)) combiningRuns

def markTable : Table Bool :=
  Table.read (· = ['M']) markRuns

/-- The class of a character; a character of class zero is no part of what is ordered. -/
def combiningClass (c : Char) : Nat :=
  combiningTable.value 0 c

def isMark (c : Char) : Bool :=
  markTable.value false c

def isVirama (c : Char) : Bool :=
  combiningClass c = 9

end Doctype.Unicode
