import BitRev.Framework.Bytes

/-!
# Unix paths

Paths as `std::path` reads them on Unix: a byte string, split into `components`; `push` appends a
path, or replaces what it is pushed onto when it is absolute. `resolve cwd p` is the lexical
resolution of `p` seen from the directory `cwd` (the names on the way to it from the root): `.`
stays, `..` leaves the last directory and the root is its own parent.

* `normalise_push`: a relative path pushed onto `p` adds its names to those of `p`.
* `resolve_push`: resolving `p/q` is resolving `q` from where `p` leads.
* `resolve_eq_climb`: a relative path drops `climb.1` names and appends `climb.2`.
* `properPrefix_climb`: when a path leads below the directory it is seen from.
-/

namespace BitRev.Path

open List

def slash : UInt8 := chr '/'
def dot : Bytes := ascii "."
def dotdot : Bytes := ascii ".."

/-- `std::path::Component` on Unix. -/
inductive Component where
  | rootDir
  | curDir
  | parentDir
  | normal (name : Bytes)
  deriving DecidableEq

def isAbsolute (p : Bytes) : Bool := p.head? == some slash

/-- The component of one piece between slashes; empty pieces and `.` are skipped. -/
def Component.ofSegment (c : Bytes) : Option Component :=
  if c = [] ∨ c = dot then none else if c = dotdot then some .parentDir else some (.normal c)

/-- The components of `p` after the root or the leading `.`. -/
def names (p : Bytes) : List Component := (p.splitOn slash).filterMap Component.ofSegment

/-- `Path::components`: a leading `.` of a relative path is kept, every other one is dropped. -/
def components (p : Bytes) : List Component :=
  if isAbsolute p then .rootDir :: names p
  else if (p.splitOn slash).head? = some dot then .curDir :: names p
  else names p

/-- `PathBuf::push`. -/
def push (p q : Bytes) : Bytes :=
  if isAbsolute q then q
  else if p = [] ∨ p.getLast? = some slash then p ++ q
  else p ++ slash :: q

/-- `==` of two paths compares their components. -/
def eq (p q : Bytes) : Bool := components p == components q

/-- Where one component leads from the directory `st`. -/
def Component.walk (st : List Bytes) : Component → List Bytes
  | .rootDir => []
  | .curDir => st
  | .parentDir => st.dropLast
  | .normal c => st ++ [c]

/-- The names from the root to where `p` leads, seen from the directory `cwd`. -/
def resolve (cwd : List Bytes) (p : Bytes) : List Bytes := (components p).foldl Component.walk cwd

/-- `a` is an ancestor of `b`. -/
def ProperPrefix (a b : List Bytes) : Prop := a <+: b ∧ a ≠ b

instance (a b : List Bytes) : Decidable (ProperPrefix a b) :=
  inferInstanceAs (Decidable (a <+: b ∧ a ≠ b))

def normalise (p : Bytes) : List Component := (components p).filter (· ≠ .curDir)

/-! ## Normalisation -/

lemma names_append_slash (p q : Bytes) : names (p ++ slash :: q) = names p ++ names q := by
  rw [names, splitOn_append_cons_self, filterMap_append, names, names]

@[simp] lemma names_nil : names [] = [] := rfl

variable {p : Bytes}

lemma names_cases {c : Component} (h : c ∈ names p) : c = .parentDir ∨ ∃ n, c = .normal n := by
  obtain ⟨seg, -, hc⟩ := mem_filterMap.1 h
  unfold Component.ofSegment at hc
  grind

lemma names_filter (p : Bytes) : (names p).filter (· ≠ .curDir) = names p := by
  refine filter_eq_self.2 fun c hc => ?_
  obtain rfl | ⟨n, rfl⟩ := names_cases hc <;> simp

lemma normalise_eq (p : Bytes) :
    normalise p = (if isAbsolute p then [.rootDir] else []) ++ names p := by
  unfold normalise components
  split
  · rw [filter_cons_of_pos (by simp), names_filter]
    rfl
  · split
    · rw [filter_cons_of_neg (by simp), names_filter]
      rfl
    · rw [names_filter]
      rfl

lemma isAbsolute_append (hp : p ≠ []) (q : Bytes) : isAbsolute (p ++ q) = isAbsolute p := by
  cases p with
  | nil => exact absurd rfl hp
  | cons b bs => rfl

lemma components_append_slash (hp : p ≠ []) (q : Bytes) :
    components (p ++ slash :: q) = components p ++ names q := by
  have hhead : ((p ++ slash :: q).splitOn slash).head? = (p.splitOn slash).head? := by
    rw [splitOn_append_cons_self, head?_append_of_ne_nil _ (splitOn_ne_nil _ _)]
  unfold components
  rw [isAbsolute_append hp, names_append_slash, hhead]
  split
  · rfl
  · split <;> rfl

/-- A relative path pushed onto a non-empty one adds its names. -/
lemma components_push {p q : Bytes} (hp : p ≠ []) (hq : isAbsolute q = false) :
    components (push p q) = components p ++ names q := by
  unfold push
  rw [if_neg (by simp [hq])]
  split_ifs with h
  · rcases h with h | h
    · exact absurd h hp
    -- `p` ends in a slash, which separates `q` from what stands before it.
    obtain ⟨p', rfl⟩ := getLast?_eq_some_iff.1 h
    rw [append_assoc, singleton_append]
    rcases eq_or_ne p' [] with rfl | hp'
    · exact congrArg (Component.rootDir :: ·) (names_append_slash [] q)
    · rw [components_append_slash hp', components_append_slash hp', names_nil, append_nil]
  · exact components_append_slash hp q

@[simp] lemma push_nil (q : Bytes) : push [] q = q := by
  unfold push
  split <;> rfl

/-- A relative path pushed onto `p` adds its names to those of `p`. -/
lemma normalise_push (p : Bytes) {q : Bytes} (hq : isAbsolute q = false) :
    normalise (push p q) = normalise p ++ names q := by
  rcases eq_or_ne p [] with rfl | hp
  · rw [push_nil, normalise_eq q, hq]
    rfl
  · rw [normalise, components_push hp hq, filter_append, names_filter]
    rfl

lemma components_eq_nil : components p = [] ↔ p = [] := by
  refine ⟨fun h => ?_, fun h => h ▸ rfl⟩
  cases p with
  | nil => rfl
  | cons b bs =>
    exfalso
    unfold components at h
    split at h
    · cases h
    rename_i habs
    split at h
    · cases h
    rename_i hdot
    -- the first piece starts with `b`, so it is a name
    have hb : (b == slash) = false := by simpa [isAbsolute] using habs
    obtain ⟨seg, segs, hseg⟩ := exists_cons_of_ne_nil (splitOn_ne_nil slash bs)
    have hsplit : (b :: bs).splitOn slash = (b :: seg) :: segs := by
      rw [splitOn_cons_eq_if_modifyHead, hb, hseg]
      rfl
    have hne : b :: seg ≠ dot := fun heq => hdot (by rw [hsplit, heq]; rfl)
    rw [names, hsplit, filterMap_cons] at h
    simp only [Component.ofSegment, hne, reduceCtorEq, or_self, if_false] at h
    split at h
    · rename_i hsome
      split at hsome <;> cases hsome
    · cases h

/-- Equal paths stay equal when the same path is pushed onto both. -/
lemma components_push_congr {p p' : Bytes} (h : components p = components p') (q : Bytes) :
    components (push p q) = components (push p' q) := by
  cases hq : isAbsolute q with
  | true => rw [push, push, if_pos hq, if_pos hq]
  | false =>
    rcases eq_or_ne p [] with rfl | hp
    · rw [components_eq_nil.1 h.symm]
    · have hp' : p' ≠ [] := fun hp' => hp (components_eq_nil.1 (h.trans (components_eq_nil.2 hp')))
      rw [components_push hp hq, components_push hp' hq, h]

lemma isAbsolute_name {c : Bytes} (hs : slash ∉ c) : isAbsolute c = false := by
  cases c with
  | nil => rfl
  | cons b bs => simpa [isAbsolute] using fun h : b = slash => hs (h ▸ mem_cons_self)

/-- A piece without slashes that is neither empty nor `..` is one name, or `.`. -/
lemma names_name {c : Bytes} (hs : slash ∉ c) (he : c ≠ []) (hd : c ≠ dotdot) :
    names c = if c = dot then [] else [.normal c] := by
  rw [names, splitOn_eq_singleton hs]
  by_cases hc : c = dot
  · simp [Component.ofSegment, hc]
  · simp [Component.ofSegment, hc, he, hd]

/-! ## Resolution -/

lemma resolve_eq (cwd : List Bytes) (p : Bytes) :
    resolve cwd p = (normalise p).foldl Component.walk cwd := by
  unfold resolve normalise
  generalize components p = cs
  induction cs generalizing cwd with
  | nil => rfl
  | cons c cs ih =>
    rw [foldl_cons, ih]
    cases c <;> rfl

lemma resolve_absolute (h : isAbsolute p = true) (st st' : List Bytes) :
    resolve st p = resolve st' p := by
  rw [resolve_eq, resolve_eq, normalise_eq, if_pos h]
  rfl

lemma resolve_relative (h : isAbsolute p = false) (st : List Bytes) :
    resolve st p = (names p).foldl Component.walk st := by
  rw [resolve_eq, normalise_eq, h]
  rfl

/-- Resolving `p/q` is resolving `q` from where `p` leads. -/
lemma resolve_push (cwd : List Bytes) (p q : Bytes) :
    resolve cwd (push p q) = resolve (resolve cwd p) q := by
  cases hq : isAbsolute q with
  | true =>
    rw [push, if_pos hq]
    exact resolve_absolute hq _ _
  | false =>
    rw [resolve_eq, normalise_push p hq, foldl_append, ← resolve_eq, resolve_relative hq]

/-! ## Climbing -/

/-- One component after `u` directories have been left and `cs` entered. -/
def climbStep : Nat × List Bytes → Component → Nat × List Bytes
  | (u, cs), .parentDir => if cs = [] then (u + 1, []) else (u, cs.dropLast)
  | (u, cs), .normal c => (u, cs ++ [c])
  | st, .rootDir => st
  | st, .curDir => st

/-- How many directories a relative path leaves, and the names it then enters. -/
def climb (p : Bytes) : Nat × List Bytes := (names p).foldl climbStep (0, [])

lemma names_ne_rootDir (p : Bytes) : Component.rootDir ∉ names p := by
  intro h
  obtain hc | ⟨n, hc⟩ := names_cases h <;> cases hc

lemma walk_climbStep (d cs : List Bytes) (u : Nat) {c : Component} (hc : c ≠ .rootDir) :
    c.walk (d.take (d.length - u) ++ cs) =
      d.take (d.length - (climbStep (u, cs) c).1) ++ (climbStep (u, cs) c).2 := by
  cases c with
  | rootDir => exact absurd rfl hc
  | curDir => rfl
  | normal c => simp [Component.walk, climbStep]
  | parentDir =>
    by_cases hcs : cs = []
    · simp only [Component.walk, climbStep, hcs, append_nil, if_true]
      rw [dropLast_eq_take, take_take, length_take]
      congr 1
      omega
    · simp [Component.walk, climbStep, hcs, dropLast_append_of_ne_nil]

lemma foldl_walk_climb (d : List Bytes) :
    ∀ (l : List Component) (st : Nat × List Bytes), Component.rootDir ∉ l →
      l.foldl Component.walk (d.take (d.length - st.1) ++ st.2) =
        d.take (d.length - (l.foldl climbStep st).1) ++ (l.foldl climbStep st).2
  | [], _, _ => rfl
  | c :: l, (u, cs), h => by
    rw [foldl_cons, walk_climbStep d cs u fun hc => h (hc ▸ mem_cons_self),
      foldl_walk_climb d l _ fun hm => h (mem_cons_of_mem _ hm)]
    rfl

/-- A relative path leaves `climb.1` directories and then enters `climb.2`. -/
lemma resolve_eq_climb (d : List Bytes) (hp : isAbsolute p = false) :
    resolve d p = d.take (d.length - (climb p).1) ++ (climb p).2 := by
  have h := foldl_walk_climb d (names p) (0, []) (names_ne_rootDir p)
  rw [resolve_relative hp]
  simpa [climb] using h

lemma properPrefix_append_right (a b c : List Bytes) :
    ProperPrefix (a ++ b) (a ++ c) ↔ ProperPrefix b c := by
  simp [ProperPrefix]

/-- What follows the directories left and entered leads below `d` exactly when the names that
`d` loses are entered again, and one more. -/
lemma properPrefix_climb (d cs : List Bytes) (u : Nat) :
    ProperPrefix d (d.take (d.length - u) ++ cs) ↔ ProperPrefix (d.drop (d.length - u)) cs := by
  conv_lhs => arg 1; rw [← take_append_drop (d.length - u) d]
  exact properPrefix_append_right _ _ _

end BitRev.Path
