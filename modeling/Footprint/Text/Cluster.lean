import Footprint.Text.ClusterBreak

set_option autoImplicit false

/-!
The clusters of a text: what a reader takes for one character, by the rules for extended grapheme
clusters. Whether a character joins the cluster before it depends on the character that this cluster
ends in, and in three cases on what led there: flags are pairs, a conjunct needs a linker since its
last consonant, and a joined emoji needs a joiner after its last pictograph.
-/

namespace Footprint.Text

/-- What led to the last character of a cluster. -/
inductive ClusterTrail where
  | plain
  /-- The half of a flag whose other half is not there yet. -/
  | halfFlag
  /-- A pictograph and what extends it. -/
  | pictograph
  /-- A pictograph, what extends it, and a joiner. -/
  | joinedPictograph
  /-- A consonant and what extends it. -/
  | consonant
  /-- A consonant and what extends it, a linker among that. -/
  | conjunct
  deriving DecidableEq

/-- The trail with one more character of its cluster. -/
def ClusterTrail.next (t : ClusterTrail) : ClusterBreak → ClusterTrail
  | .regional => if t = halfFlag then plain else halfFlag
  | .pictograph => pictograph
  | .consonant => consonant
  | .extend => if t = pictograph || t = consonant || t = conjunct then t else plain
  | .linker =>
    if t = consonant || t = conjunct then conjunct else if t = pictograph then pictograph else plain
  | .nonJoiner => if t = pictograph then pictograph else plain
  | .joiner =>
    if t = consonant || t = conjunct then t
    else if t = pictograph then joinedPictograph else plain
  | _ => plain

/-- What a cluster ends in. -/
structure ClusterEnd where
  last : ClusterBreak
  trail : ClusterTrail

namespace ClusterEnd

/-- The end of what nothing joins. -/
def closed : ClusterEnd := ⟨.control, .plain⟩

/-- A character of the class joins the cluster. -/
def joins (e : ClusterEnd) (b : ClusterBreak) : Bool :=
  if e.last = .carriageReturn && b = .lineFeed then true
  else if e.last.isControl || b.isControl then false
  else
    b.joinsBackward || e.last = .prepend || e.last.joinsSyllable b
      || (e.trail = .conjunct && b = .consonant)
      || (e.trail = .joinedPictograph && b = .pictograph)
      || (e.trail = .halfFlag && b = .regional)

/-- The end after a character of the class, whether it joins or starts the next cluster. -/
def next (e : ClusterEnd) (b : ClusterBreak) : ClusterEnd :=
  ⟨b, if e.joins b then e.trail.next b else ClusterTrail.plain.next b⟩

end ClusterEnd

/-- The characters that join a cluster which has been read so far, and the clusters after it. -/
def splitCluster (e : ClusterEnd) : List Char → List Char × List (List Char)
  | [] => ([], [])
  | c :: cs =>
    let b := ClusterBreak.of c
    let (joined, later) := splitCluster (e.next b) cs
    if e.joins b then (c :: joined, later) else ([], (c :: joined) :: later)

def clusters (cs : List Char) : List (List Char) := (splitCluster .closed cs).2

theorem splitCluster_flatten (e : ClusterEnd) (cs : List Char) :
    (splitCluster e cs).1 ++ (splitCluster e cs).2.flatten = cs := by
  induction cs generalizing e with
  | nil => rfl
  | cons c cs ih =>
    simp only [splitCluster]
    split
    · exact congrArg (c :: ·) (ih _)
    · exact congrArg (c :: ·) (ih _)

theorem closed_joins (b : ClusterBreak) : ClusterEnd.closed.joins b = false := by
  cases b <;> rfl

theorem clusters_flatten (cs : List Char) : (clusters cs).flatten = cs := by
  have h := splitCluster_flatten .closed cs
  cases cs with
  | nil => rfl
  | cons c cs =>
    simp only [splitCluster, closed_joins, Bool.false_eq_true, if_false] at h
    simpa [clusters, splitCluster, closed_joins] using h

end Footprint.Text
