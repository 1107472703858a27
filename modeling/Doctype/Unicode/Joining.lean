import Doctype.Unicode.Table

/-!
How letters join their neighbours in scripts that are written joined up. The table tells this
of the characters that a domain name may hold.
-/

namespace Doctype.Unicode

/-- How a character joins: not at all, what is behind it, what is in front of it, both, or as
if it were not there. -/
inductive Joining
  | alone
  | left
  | right
  | dual
  | transparent
  deriving DecidableEq

/-- The text of the table: U, L, R, D and T. -/
def joiningRuns : String :=
  "300U 71T 112U 8T 106U 2dT U T U 2T U 2T U 9T 40U bT 5U D U 4R D R D R 5D 4R dD U 7D R 2D 15T
   eU 2D T 3R 5U fD 12R 26D R 2D 9R D R D R 2D 2R U R 8T U 6T 2U 2T U 4T 2R aU 3D 2U D 10U R T
   3D 5R 4D R 9D R D R D R 2D R 1dT R bD 3R fD 2R 4D R D 2R 3D 2R 6D 26U bT 19U 21D 9T 9U T 18U
   4T U 9T U 3T U 7T 10U R 5D 2R D R aD R D 3R 5T 2U D U 4D U R D 1aR 3U D 2U 5D R 8D 9T aD 3R
   U R 2D 2R 6D R fD U 39T 37U T U T 4U 8T 4U T 3U fT 2U 2T 1dU T 3aU T 4U 6T 6U T 14U 4T 18U
   5T 39U 2T 3U 1bT 14U 2T 3U T bU 2T 39U T 4U 8T 4U 3T 12U 4T 14U 8T 3aU T 2U T U 6T 6U aT bU
   4T 1cU T 3dU T cU 3T 30U T 3U T 37U T U 3T 5U 12T aU 4T 1bU T 3aU T 2U T 6U T 5U 9T dU 4T
   1aU 2T 39U 2T 4U 5T 7U T 14U 4T 1bU T 48U 5T 3U 6T 59U T 2U bT 8U 8T 62U T 2U 9T bU 8T 48U
   2T 1bU T U T U T 37U eT U 5T U 2T 5U 31T 8U T 66U 4T U 6T U 2T 2U 2T 19U 2T 4U 3T 10U 4T dU
   T 2U 2T 6U T fU T 2bfU 3T 3b2U 3T 1dU 2T 1eU eT 12U eT 37U 7T 8U T 2U bT 9U 3T 27U D 18U 60D
   5U 2T 22D T 6D 70U 3T 4U 2T 9U T 6U 7T d7U 2T 2U 3T 38U T U 9T U T 2U 8T 6U dT 30U 54T 30U T
   U 5T U T 5U T 28U 9T cU 2T 20U 4T 2U 2T U 3T 38U T U 2T 3U T U 3T 3aU 8T 2U 5T 95U 3T U dT U
   7T 4U T 6U T 3U 2T c6U 41T 2cfU 34T bebU 4T 8cU T 60U 20T 22aU 4T 6bU 4T 75d2U 4T U aT 20U
   2T 50U 2T 110U T 3U T 4U T 19U 2T 5U 4T 10U 32D L 51U aT 12U 12T dU T 26U 8T 19U bT 2eU 3T
   30U T 2U 4T 2U 2T 27U T 43U 6T 2U 2T 2U bT 3U T 8U T 2fU T 33U T U 3T 2U 2T 5U 2T U T 2aU 2T
   8U bT e4U T 2U T 4U 3T 4f2eU 94T 26eU 25T 3b8U 83T 60U T 95U aT 681U fT 28U 8T 80U 5D R U R
   U 2R 2U L 5R 4D L 5D R 3D R 2U R 6T 4D R 90U D R D 3R 3D R 2D R D 2R D 8R 10U 4R 2D 151U L
   21D R D cT 39U 5T 13dU 2T 15U R 2D U aD 2aU 6T 30U 3D R 11D U bT 3D R 1bU 4D 2R cD 4T 2aU D
   U 2D 3R U D 2R 2D R 2D U D 2R D 4U R D 15L 21U T 36U fT 29U T 2U 2T aU 3T 31U 4T 2U 2T 7U eT
   30U 3T 24U 5T U 9T 3dU T cU 2T 34U 9T aU 4T 2U T 5fU 3T 2U T U 2T 6U T 2U 3fT 5fU T 3U dT
   10U 2T 39U 2T 3U T 25U 1aT 3bU 7T cU T U T U T eU 1fT 38U 8T 2U 3T U T 17U T 54U 6T U T 4U
   2T U 2T eeU 6T 4U 2T U 2T 1bU 24T 33U 8T 2U T U 2T 6aU T U T 2U 6T U T 65U T U T 2U 4T U 9T
   ffU 9T U 2T 100U 2T U T 4U T 90U 8T 4U T 20U aT 28U 6T 2U 4T 8U 9T U 6T 2U 3T 2eU dT U 2T
   c6U T U 3T U T c9U eT U T 52U 17T U 7T U 2T U 4bT 31U 15T U 9T 40U 3T 2U T U T 15bU 2T bU 2T
   34U 8T 2U T U T 17U 56T 1490U T 6U 19T 2cbeU cT 3U 3T 9c0U 5T 3bU 7T 418U T 3fU 4T 51U cT
   4cadU 2T 1261U 50T 217U 3T 11U 8T 2U 7T 1eU 4T 94U 3T 7bbU 37T 4U 32T 8U T eU T 16U 465T
   100U 100T 30U 7T 177U 12T 2cU 4T 1fcU 4T feU 2T f3U T 2U T 7U 2T 5U 9T 1d2U 52T 22D cT
   f16b0U"

def Joining.read (t : Text) : Joining :=
  if t = ['L'] then left
  else if t = ['R'] then right
  else if t = ['D'] then dual
  else if t = ['T'] then transparent
  else alone

def joiningTable : Table Joining :=
  Table.read Joining.read joiningRuns

def joining (c : Char) : Joining :=
  joiningTable.value .alone c

end Doctype.Unicode
