import Warpline.Std.Bytes

/-!
# Directory trees

A tree below one root directory, without links: a finite map from paths to nodes, where a path
is the list of its components and the root is the empty path. A regular file carries its
contents and its modification time.

`get`/`put`/`del` are the operations everything else is stated with; each has one lemma for
the path it acts on and one for every other path.
-/

set_option autoImplicit false

namespace Fs

abbrev PathBuf := List Bytes

namespace PathBuf

/-- The entry of a directory. -/
def child (p : PathBuf) (name : Bytes) : PathBuf := p ++ [name]

/-- `Path::parent`, of a path that has one. -/
def parent (p : PathBuf) : PathBuf := p.dropLast

@[simp] theorem parent_child (p : PathBuf) (name : Bytes) : (p.child name).parent = p := by
  simp [child, parent]

@[simp] theorem child_inj {p q : PathBuf} {a b : Bytes} : p.child a = q.child b ↔ p = q ∧ a = b := by
  simp [child]

@[simp] theorem child_ne_nil (p : PathBuf) (name : Bytes) : p.child name ≠ [] := by simp [child]

/-- `Path::join`: the components of `s`, below `p` unless `s` is absolute. -/
def join (p : PathBuf) (s : Str) : PathBuf :=
  let parts := (s.splitOn '/').filter fun c => c ≠ [] && c ≠ ['.']
  if s.head? = some '/' then Bytes.ofStr ['/'] :: parts.map Bytes.ofStr
  else p ++ parts.map Bytes.ofStr

/-- Joining a single ordinary component. -/
theorem join_eq_child {p : PathBuf} {s : Str} (h : '/' ∉ s) (h0 : s ≠ []) (h1 : s ≠ ['.']) :
    join p s = p.child (Bytes.ofStr s) := by
  have hsplit : s.splitOn '/' = [s] := List.splitOn_eq_singleton h
  have hhead : s.head? ≠ some '/' := fun hs => h (List.mem_of_head? hs)
  simp [join, hsplit, hhead, h0, h1, child]

end PathBuf

inductive Node
  | dir
  | file (contents : Bytes) (mtime : Nat)
  deriving DecidableEq, Repr

def Node.isFile : Node → Bool
  | .dir => false
  | .file _ _ => true

structure DirTree where
  nodes : AList fun _ : PathBuf => Node

namespace DirTree

def get (t : DirTree) (p : PathBuf) : Option Node := if p = [] then some .dir else t.nodes.lookup p

def put (t : DirTree) (p : PathBuf) (n : Node) : DirTree := ⟨t.nodes.insert p n⟩

def del (t : DirTree) (p : PathBuf) : DirTree := ⟨t.nodes.erase p⟩

@[simp] theorem get_root (t : DirTree) : t.get [] = some .dir := rfl

theorem get_put (t : DirTree) {p : PathBuf} (n : Node) (hp : p ≠ []) : (t.put p n).get p = some n := by
  simp [get, put, hp]

theorem get_put_ne (t : DirTree) {p q : PathBuf} (n : Node) (h : q ≠ p) :
    (t.put p n).get q = t.get q := by
  simp [get, put, AList.lookup_insert_ne h]

theorem get_del (t : DirTree) {p : PathBuf} (hp : p ≠ []) : (t.del p).get p = none := by
  simp [get, del, hp]

theorem get_del_ne (t : DirTree) {p q : PathBuf} (h : q ≠ p) : (t.del p).get q = t.get q := by
  simp [get, del, AList.lookup_erase_ne h]

/-- The paths that hold something, the root apart. -/
def paths (t : DirTree) : List PathBuf := t.nodes.keys.filter (· ≠ [])

theorem mem_paths {t : DirTree} {p : PathBuf} : p ∈ t.paths ↔ p ≠ [] ∧ (t.get p).isSome := by
  unfold paths get
  by_cases hp : p = [] <;> simp [hp, AList.lookup_isSome, AList.mem_keys]

/-- The names in a directory. -/
def children (t : DirTree) (p : PathBuf) : List Bytes :=
  t.paths.filterMap fun q => if q.parent = p then q.getLast? else none

theorem mem_children {t : DirTree} {p : PathBuf} {name : Bytes} :
    name ∈ t.children p ↔ (t.get (p.child name)).isSome := by
  unfold children
  simp only [List.mem_filterMap, mem_paths, Option.ite_none_right_eq_some]
  constructor
  · rintro ⟨q, ⟨-, hs⟩, rfl, hl⟩
    rwa [PathBuf.child, PathBuf.parent, List.dropLast_append_getLast? _ hl]
  · intro h
    exact ⟨p.child name, ⟨PathBuf.child_ne_nil _ _, h⟩, PathBuf.parent_child _ _, by simp [PathBuf.child]⟩

/-- Everything is in a directory. -/
def WellFormed (t : DirTree) : Prop := ∀ p, t.get p ≠ none → t.get p.parent = some .dir

theorem wellFormed_iff {t : DirTree} :
    t.WellFormed ↔ ∀ p ∈ t.paths, t.get p.parent = some .dir := by
  simp only [WellFormed, mem_paths, ne_eq, Option.isSome_iff_ne_none]
  refine ⟨fun h p hp => h p hp.2, fun h p hp => ?_⟩
  by_cases hroot : p = []
  · subst hroot
    rfl
  · exact h p ⟨hroot, hp⟩

instance (t : DirTree) : Decidable t.WellFormed := decidable_of_iff' _ wellFormed_iff

/-- Making a directory and its missing ancestors. -/
def mkdirs (t : DirTree) (p : PathBuf) : DirTree :=
  p.inits.foldl (fun t q => if t.get q = none then t.put q .dir else t) t

/-- `mkdirs` only adds directories where nothing was. -/
theorem get_mkdirs (t : DirTree) (p q : PathBuf) :
    (t.mkdirs p).get q = t.get q ∨ (t.get q = none ∧ (t.mkdirs p).get q = some .dir) := by
  unfold mkdirs
  generalize p.inits = l
  induction l generalizing t with
  | nil => exact .inl rfl
  | cons a l ih =>
    rw [List.foldl_cons]
    split
    · rename_i ha
      have hne : a ≠ [] := by
        rintro rfl
        cases ha
      by_cases hq : q = a
      · subst hq
        refine .inr ⟨ha, ?_⟩
        obtain h | ⟨h, -⟩ := ih (t.put q .dir)
        · rw [h, get_put _ _ hne]
        · rw [get_put _ _ hne] at h
          cases h
      · have := ih (t.put a .dir)
        rwa [get_put_ne _ _ hq] at this
    · exact ih t

/-- Some ancestor of `p`, or `p` itself, is a regular file. -/
def underFile (t : DirTree) (p : PathBuf) : Bool := p.inits.any fun q => (t.get q).any Node.isFile

theorem underFile_child (t : DirTree) (p : PathBuf) (name : Bytes) :
    t.underFile (p.child name) = (t.underFile p || (t.get (p.child name)).any Node.isFile) := by
  rw [Bool.eq_iff_iff, Bool.or_eq_true, underFile, underFile, List.any_eq_true, List.any_eq_true]
  simp only [List.mem_inits, PathBuf.child, List.prefix_concat_iff]
  constructor
  · rintro ⟨q, rfl | hq, hf⟩
    · exact .inr hf
    · exact .inl ⟨q, hq, hf⟩
  · rintro (⟨q, hq, hf⟩ | hf)
    · exact ⟨q, .inr hq, hf⟩
    · exact ⟨_, .inl rfl, hf⟩

/-- `mkdirs` makes nothing but the directory and its ancestors. -/
theorem get_mkdirs_of_not_prefix (t : DirTree) {p q : PathBuf} (h : ¬ q <+: p) :
    (t.mkdirs p).get q = t.get q := by
  have hl : ∀ a ∈ p.inits, q ≠ a := by
    rintro a ha rfl
    exact h ((List.mem_inits _ _).1 ha)
  unfold mkdirs
  generalize p.inits = l at hl
  induction l generalizing t with
  | nil => rfl
  | cons a l ih =>
    rw [List.foldl_cons, ih _ fun b hb => hl b (.tail _ hb)]
    split
    · exact get_put_ne _ _ (hl a (.head _))
    · rfl

/-- `mkdirs` leaves something at the directory it is asked for. -/
theorem get_mkdirs_ne_none (t : DirTree) (p : PathBuf) : (t.mkdirs p).get p ≠ none := by
  have hp : p ∈ p.inits ∨ t.get p ≠ none := .inl ((List.mem_inits _ _).2 (List.prefix_refl p))
  unfold mkdirs
  generalize p.inits = l at hp
  induction l generalizing t with
  | nil => simpa using hp
  | cons a l ih =>
    rw [List.foldl_cons]
    refine ih _ ?_
    by_cases hpl : p ∈ l
    · exact .inl hpl
    · refine .inr ?_
      split
      · rename_i ha
        by_cases hpa : p = a
        · rw [hpa, get_put]
          · simp
          · rintro rfl
            cases ha
        · rw [get_put_ne _ _ hpa]
          exact hp.resolve_left (by simp [hpa, hpl])
      · rename_i ha
        rintro hn
        exact hp.elim (fun hm => ha ((List.mem_cons.1 hm).resolve_right hpl ▸ hn)) (· hn)

/-- Where no ancestor is a regular file, `mkdirs` makes the directory. -/
theorem get_mkdirs_self (t : DirTree) {p : PathBuf} (h : t.underFile p = false) :
    (t.mkdirs p).get p = some .dir := by
  obtain hsame | ⟨-, hdir⟩ := t.get_mkdirs p p
  · have hne := t.get_mkdirs_ne_none p
    have hfile := List.any_eq_false.1 h p ((List.mem_inits _ _).2 (List.prefix_refl p))
    rw [hsame] at hne ⊢
    cases hg : t.get p with
    | none => exact absurd hg hne
    | some n => cases n with
      | dir => rfl
      | file b m => simp [hg, Node.isFile] at hfile
  · exact hdir

end DirTree

end Fs
