import RoutineSync.Text.Basic
import RoutineSync.Text.ClusterTable
/-!
Clusters: the characters of a text that a reader takes for one, such as a letter with its marks, a
syllable of Hangul, a flag, or pictographs that are joined. Main statement: clusters put together
give the text again.
-/
set_option autoImplicit false

namespace RoutineSync.Text

def joiner : Char := '\u200d'

def isPicture (c : Char) : Bool := pictureRuns.has c.toNat

/-- A mark that belongs to the character before it, the joiner apart. -/
def isExtend (c : Char) : Bool := extendRuns.has c.toNat

/-- Half of a flag. -/
def isIndicator (c : Char) : Bool := 0x1F1E6 ≤ c.toNat && c.toNat ≤ 0x1F1FF

def standsAlone (c : Char) : Bool := c.toNat < 0x20 || controlRuns.has c.toNat || c.toNat = 0x7F

/-- Parts of a syllable of Hangul: consonants, vowels and final consonants, and whole syllables that
end in a vowel or in a consonant. -/
inductive Jamo where
  | lead | vowel | tail | open | closed
deriving DecidableEq

def jamo? (c : Char) : Option Jamo :=
  let n := c.toNat
  if Runs.has [(0x1100, 0x115F), (0xA960, 0xA97C)] n then some .lead
  else if Runs.has [(0x1160, 0x11A7), (0xD7B0, 0xD7C6), (0x16D63, 0x16D63), (0x16D67, 0x16D6A)] n
  then some .vowel
  else if Runs.has [(0x11A8, 0x11FF), (0xD7CB, 0xD7FB)] n then some .tail
  else if 0xAC00 ≤ n && n ≤ 0xD7A3 then
    if (n - 0xAC00) % 28 = 0 then some .open else some .closed
  else none

def Jamo.joins : Jamo → Jamo → Bool
  | .lead, .tail => false
  | .lead, _ => true
  | .vowel, next | .open, next => next = .vowel || next = .tail
  | .tail, next | .closed, next => next = .tail

/-- Whether a cluster, its last character first, ends in a consonant with a linker behind it. -/
def isLinked (cluster : Text) : Bool :=
  let isLinker (c : Char) : Bool := linkers.contains c.toNat
  let isMark (c : Char) : Bool := c = joiner || (isExtend c && c ≠ '\u200c')
  (cluster.takeWhile isMark).any isLinker
    && (cluster.dropWhile isMark).head?.any fun c => conjunctRuns.has c.toNat

/-- Whether a character belongs to a cluster, given with its last character first. -/
def joins (cluster : Text) (c : Char) : Bool :=
  match cluster with
  | [] => true
  | last :: before =>
    if standsAlone last || standsAlone c then last = '\r' && c = '\n'
    else if isExtend c || c = joiner || spacingRuns.has c.toNat || prependRuns.has last.toNat then
      true
    else if isPicture c then
      last = joiner && (before.dropWhile isExtend).head?.any isPicture
    else if isIndicator c then (cluster.takeWhile isIndicator).length % 2 = 1
    else if conjunctRuns.has c.toNat then isLinked cluster
    else
      match jamo? last, jamo? c with
      | some a, some b => a.joins b
      | _, _ => false

def clustersFrom (cluster : Text) : Text → List Text
  | [] => [cluster.reverse]
  | c :: r =>
    if joins cluster c then clustersFrom (c :: cluster) r
    else cluster.reverse :: clustersFrom [c] r

def clusters : Text → List Text
  | [] => []
  | c :: r => clustersFrom [c] r

theorem flatten_clustersFrom (cluster t : Text) :
    (clustersFrom cluster t).flatten = cluster.reverse ++ t := by
  induction t generalizing cluster with
  | nil => simp [clustersFrom]
  | cons c r ih =>
    rw [clustersFrom]
    split <;> simp [ih]

theorem flatten_clusters (t : Text) : (clusters t).flatten = t := by
  cases t with
  | nil => rfl
  | cons c r => simpa [clusters] using flatten_clustersFrom [c] r

end RoutineSync.Text
