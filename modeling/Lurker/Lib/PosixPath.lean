import Lurker.Lib.Delimited
import Mathlib.Data.List.DropRight
import Mathlib.Data.List.Induction

/-!
# POSIX paths

Paths as texts of UTF-16 code units: normalizing, joining, resolving against a working directory,
and the way from one path to another. A path joined from a directory and one component resolves
to a direct child of the directory, and that component is the way there.
-/

namespace PosixPath

abbrev Path := List UInt16

def slash : UInt16 := 0x2f
def period : UInt16 := 0x2e
def dot : Path := [period]
def dotdot : Path := [period, period]

def isAbsolute (p : Path) : Bool := p.head? = some slash

/-- A segment onto those before it, the last of them first: an empty one and `.` are nothing, and
`..` takes one away. Where none is left to take, it stays only if the path may go `above` its start. -/
def push (above : Bool) (stack : List Path) (segment : Path) : List Path :=
  if segment = [] ∨ segment = dot then stack
  else if segment = dotdot then
    match stack with
    | [] => if above then [dotdot] else []
    | top :: rest => if top ≠ dotdot then rest else if above then dotdot :: stack else stack
  else segment :: stack

def collapse (above : Bool) (segments : List Path) : List Path :=
  (segments.foldl (push above) []).reverse

/-- `path.normalize` -/
def normalize (p : Path) : Path :=
  if p = [] then dot
  else
    let trailing := if p.getLast? = some slash then [slash] else []
    let body := [slash].intercalate (collapse (!isAbsolute p) (p.splitOn slash))
    if body = [] then if isAbsolute p then [slash] else dot ++ trailing
    else (if isAbsolute p then [slash] else []) ++ body ++ trailing

/-- `path.join` of two -/
def join (p q : Path) : Path :=
  match [p, q].filter (· ≠ []) with
  | [] => dot
  | parts => normalize ([slash].intercalate parts)

/-- The segments of `path.resolve`, against an absolute working directory. -/
def resolve (cwd p : Path) : List Path :=
  collapse false ((if isAbsolute p then p else cwd ++ slash :: p).splitOn slash)

/-- `path.extname` of a path without a slash: what stands from the last dot on, unless nothing
stands before it or the path is `..`. -/
def extname (p : Path) : Path :=
  let upTo := p.rdropWhile (· ≠ period)
  if upTo.length ≤ 1 ∨ p = dotdot then [] else p.drop (upTo.length - 1)

/-- What is left of two lists after what they begin with alike. -/
def dropCommon : List Path → List Path → List Path × List Path
  | a :: as, b :: bs => if a = b then dropCommon as bs else (a :: as, b :: bs)
  | as, bs => (as, bs)

/-- `path.relative` -/
def relative (cwd source target : Path) : Path :=
  if source = target then []
  else
    let (up, down) := dropCommon (resolve cwd source) (resolve cwd target)
    [slash].intercalate (up.map (fun _ => dotdot) ++ down)

/-- What stands before the extension. -/
def stem (p : Path) : Path := p.take (p.length - (extname p).length)

/-- A path at its last dot. -/
theorem exists_last_period {p : Path} (h : p.rdropWhile (· ≠ period) ≠ []) :
    ∃ before after, p = before ++ period :: after ∧ period ∉ after ∧
      (p.rdropWhile (· ≠ period)).length = before.length + 1 := by
  have hlast : (p.rdropWhile (· ≠ period)).getLast h = period := by
    simpa using List.rdropWhile_last_not (· ≠ period) p h
  refine ⟨(p.rdropWhile (· ≠ period)).dropLast, p.rtakeWhile (· ≠ period), ?_, fun hmem => ?_, ?_⟩
  · conv_lhs => rw [← List.rdropWhile_append_rtakeWhile (p := (· ≠ period)) (l := p),
      ← List.dropLast_append_getLast h, hlast]
    simp
  · simpa using List.mem_rtakeWhile_imp hmem
  · have hpos := List.length_pos_of_ne_nil h
    rw [List.length_dropLast]
    omega

/-- There is no extension, or a dot that begins it, is the last one and has something before. -/
theorem extname_cases (p : Path) : extname p = [] ∧ stem p = p ∨
    ∃ after, extname p = period :: after ∧ period ∉ after ∧ stem p ≠ [] ∧ stem p ++ extname p = p := by
  by_cases hnone : (p.rdropWhile (· ≠ period)).length ≤ 1 ∨ p = dotdot
  · left
    have hext : extname p = [] := by
      unfold extname
      exact if_pos hnone
    exact ⟨hext, by rw [stem, hext, List.length_nil, Nat.sub_zero, List.take_length]⟩
  · right
    have hlong := (not_or.mp hnone).1
    have hne : p.rdropWhile (· ≠ period) ≠ [] := by
      intro hempty
      rw [hempty] at hlong
      exact hlong (Nat.zero_le 1)
    obtain ⟨before, after, hp, hafter, hlen⟩ := exists_last_period hne
    have hext : extname p = period :: after := by
      unfold extname
      rw [if_neg hnone, hlen, Nat.add_sub_cancel, hp, List.drop_left]
    have hstem : stem p = before := by
      rw [stem, hext, hp, List.length_append, Nat.add_sub_cancel, List.take_left]
    have hbefore : before ≠ [] := by
      rintro rfl
      rw [hlen] at hlong
      exact hlong (Nat.le_refl 1)
    exact ⟨after, hext, hafter, hstem.symm ▸ hbefore, by rw [hstem, hext, ← hp]⟩

/-- A segment that names an entry of a directory. -/
structure IsComponent (p : Path) : Prop where
  ne_nil : p ≠ []
  ne_dot : p ≠ dot
  ne_dotdot : p ≠ dotdot
  no_slash : slash ∉ p

theorem push_skip {p : Path} (hp : p = [] ∨ p = dot) (above : Bool) (stack : List Path) :
    push above stack p = stack := by
  unfold push
  exact if_pos hp

theorem push_name {p : Path} (hnone : ¬ (p = [] ∨ p = dot)) (hup : p ≠ dotdot) (above : Bool)
    (stack : List Path) : push above stack p = p :: stack := by
  unfold push
  rw [if_neg hnone, if_neg hup]

theorem push_component {p : Path} (hp : IsComponent p) (above : Bool) (stack : List Path) :
    push above stack p = p :: stack :=
  push_name (by simp [hp.ne_nil, hp.ne_dot]) hp.ne_dotdot above stack

theorem push_dotdot_name {top : Path} (htop : top ≠ dotdot) (above : Bool) (rest : List Path) :
    push above (top :: rest) dotdot = rest := by
  unfold push
  rw [if_neg (by decide), if_pos rfl]
  exact if_pos htop

theorem push_dotdot_dotdot (rest : List Path) :
    push true (dotdot :: rest) dotdot = dotdot :: dotdot :: rest := by
  unfold push
  rw [if_neg (by decide), if_pos rfl]
  rfl

/-- What a stack holds. -/
def Held (above : Bool) (stack : List Path) : Prop :=
  ∀ p ∈ stack, slash ∉ p ∧ p ≠ [] ∧ p ≠ dot ∧ (above = false → p ≠ dotdot)

theorem held_push {above : Bool} {stack : List Path} {segment : Path} (h : Held above stack)
    (hslash : slash ∉ segment) : Held above (push above stack segment) := by
  unfold push
  split
  · exact h
  · rename_i hnone
    obtain ⟨hnil, hdot⟩ := not_or.mp hnone
    split
    · have hup : above = true → Held above (dotdot :: stack) := by
        rintro rfl
        exact List.forall_mem_cons.mpr ⟨⟨by decide, by decide, by decide, nofun⟩, h⟩
      split
      · split
        case isTrue habove => exact hup habove
        case isFalse => exact h
      · split
        case isTrue => exact (List.forall_mem_cons.mp h).2
        case isFalse =>
          split
          case isTrue habove => exact hup habove
          case isFalse => exact h
    · rename_i hdotdot
      exact List.forall_mem_cons.mpr ⟨⟨hslash, hnil, hdot, fun _ => hdotdot⟩, h⟩

theorem held_foldl (above : Bool) {segments : List Path} (h : ∀ s ∈ segments, slash ∉ s) :
    Held above (segments.foldl (push above) []) := by
  induction segments using List.reverseRecOn with
  | nil => exact nofun
  | append_singleton segments s ih =>
    rw [List.foldl_concat]
    exact held_push (ih fun s' hs' => h s' (List.mem_append_left _ hs')) (h s (by simp))

/-- Collapsing first changes nothing of what is collapsed then, from any start for a path that
may go above it. -/
theorem foldl_collapse {above : Bool} {stack : List Path} (hstart : above = true ∨ stack = [])
    {segments : List Path} (h : ∀ s ∈ segments, slash ∉ s) :
    (collapse above segments).foldl (push false) stack = segments.foldl (push false) stack := by
  unfold collapse
  induction segments using List.reverseRecOn with
  | nil => rfl
  | append_singleton segments s ih =>
    have hbefore : ∀ s ∈ segments, slash ∉ s := fun s' hs' => h s' (List.mem_append_left _ hs')
    have hheld := held_foldl above hbefore
    rw [List.foldl_concat, List.foldl_concat, ← ih hbefore]
    generalize segments.foldl (push above) [] = held at hheld ⊢
    by_cases hnone : s = [] ∨ s = dot
    · rw [push_skip hnone, push_skip hnone]
    by_cases hup : s = dotdot
    · subst hup
      cases held with
      | nil =>
        rcases hstart with rfl | rfl
        · rfl
        · cases above <;> rfl
      | cons top rest =>
        obtain ⟨⟨hslash, hnil, hdot, hfalse⟩, -⟩ := List.forall_mem_cons.mp hheld
        by_cases htop : top = dotdot
        · -- nothing to take away, so the path may go above its start
          cases above with
          | false => exact absurd htop (hfalse rfl)
          | true => rw [htop, push_dotdot_dotdot, List.reverse_cons, List.foldl_concat]
        · rw [push_dotdot_name htop, List.reverse_cons, List.foldl_concat,
            push_component ⟨hnil, hdot, htop, hslash⟩, push_dotdot_name htop]
    · rw [push_name hnone hup, push_name hnone hup, List.reverse_cons, List.foldl_concat,
        push_name hnone hup]

theorem collapse_concat {name : Path} (hname : IsComponent name) (above : Bool)
    (segments : List Path) : collapse above (segments ++ [name]) = collapse above segments ++ [name] := by
  rw [collapse, List.foldl_concat, push_component hname, List.reverse_cons, collapse]

theorem no_slash_of_mem_splitOn {p s : Path} (h : s ∈ p.splitOn slash) : slash ∉ s :=
  (Delimited.of_mem_splitOn h).1

section Join

variable {dir name : Path}

/-- The segments of a joined path. -/
def joined (dir name : Path) : List Path :=
  collapse (!isAbsolute dir) (dir.splitOn slash) ++ [name]

theorem splitOn_joined (hname : IsComponent name) :
    ([slash].intercalate (joined dir name)).splitOn slash = joined dir name := by
  refine List.splitOn_intercalate slash (fun p hp => ?_) (by simp [joined])
  rcases List.mem_append.mp hp with hp | hp
  · exact (held_foldl _ (fun _ => no_slash_of_mem_splitOn) p (List.mem_reverse.mp hp)).1
  · rw [List.mem_singleton.mp hp]
    exact hname.no_slash

/-- Its text begins with a name. -/
theorem head_joined (hname : IsComponent name) :
    [slash].intercalate (joined dir name) ≠ [] ∧
      ([slash].intercalate (joined dir name)).head? ≠ some slash := by
  have hfirst : (joined dir name).head? ≠ some [] := by
    intro hhead
    have hmem := List.mem_of_mem_head? hhead
    rcases List.mem_append.mp hmem with hmem | hmem
    · exact (held_foldl _ (fun _ => no_slash_of_mem_splitOn) _ (List.mem_reverse.mp hmem)).2.1 rfl
    · exact hname.ne_nil (List.mem_singleton.mp hmem).symm
  constructor
  · intro hempty
    have hsplit := @splitOn_joined dir _ hname
    rw [hempty, List.splitOn_nil] at hsplit
    exact hfirst (by rw [← hsplit]; rfl)
  · intro hhead
    obtain ⟨rest, hrest⟩ := List.head?_eq_some_iff.mp hhead
    have hsplit := @splitOn_joined dir _ hname
    rw [hrest, List.splitOn_cons_eq_if_modifyHead, if_pos (beq_self_eq_true slash)] at hsplit
    exact hfirst (by rw [← hsplit]; rfl)

/-- What `join` makes of a directory and a component. -/
theorem join_eq (hdir : dir ≠ []) (hname : IsComponent name) : join dir name =
    (if isAbsolute dir then [slash] else []) ++ [slash].intercalate (joined dir name) := by
  have hparts : [dir, name].filter (· ≠ []) = [dir, name] := by
    simp [hdir, hname.ne_nil]
  have hboth : [slash].intercalate [dir, name] = dir ++ slash :: name := by
    simp [List.intercalate]
  have hroot : isAbsolute (dir ++ slash :: name) = isAbsolute dir := by
    cases dir with
    | nil => exact absurd rfl hdir
    | cons c dir => rfl
  have hlast : (dir ++ slash :: name).getLast? ≠ some slash := by
    rw [List.getLast?_append_cons, List.getLast?_cons_of_ne_nil hname.ne_nil]
    exact fun h => hname.no_slash (List.mem_of_getLast? h)
  have hsplit : (dir ++ slash :: name).splitOn slash = dir.splitOn slash ++ [name] := by
    rw [List.splitOn_append_cons_self, List.splitOn_eq_singleton hname.no_slash]
  unfold join
  rw [hparts]
  dsimp only
  rw [hboth, normalize, if_neg (by simp)]
  simp only [hroot, hlast, if_false, hsplit, collapse_concat hname, List.append_nil]
  exact if_neg (head_joined hname).1

/-- A component joined to a directory is a direct child of it. -/
theorem resolve_join (cwd : Path) (hdir : dir ≠ []) (hname : IsComponent name) :
    resolve cwd (join dir name) = resolve cwd dir ++ [name] := by
  have hsegments : ∀ s ∈ dir.splitOn slash ++ [name], slash ∉ s := by
    intro s hs
    rcases List.mem_append.mp hs with hs | hs
    · exact no_slash_of_mem_splitOn hs
    · rw [List.mem_singleton.mp hs]
      exact hname.no_slash
  have hjoined : joined dir name = collapse (!isAbsolute dir) (dir.splitOn slash ++ [name]) :=
    (collapse_concat hname _ _).symm
  rw [join_eq hdir hname]
  unfold resolve
  rw [← collapse_concat hname]
  cases hroot : isAbsolute dir with
  | true =>
    have habsolute : isAbsolute ([slash] ++ [slash].intercalate (joined dir name)) = true := rfl
    rw [if_pos rfl, habsolute, if_pos rfl, List.singleton_append, List.splitOn_cons_eq_if_modifyHead,
      if_pos (beq_self_eq_true slash), splitOn_joined hname, hjoined, hroot]
    unfold collapse
    rw [List.foldl_cons]
    exact congrArg List.reverse (foldl_collapse (.inr rfl) hsegments)
  | false =>
    have hrelative : isAbsolute ([slash].intercalate (joined dir name)) = false :=
      decide_eq_false (head_joined hname).2
    rw [if_neg Bool.false_ne_true, List.nil_append, hrelative, if_neg Bool.false_ne_true,
      if_neg Bool.false_ne_true, List.splitOn_append_cons_self, splitOn_joined hname, hjoined, hroot,
      List.splitOn_append_cons_self, List.append_assoc]
    have hcollapse := @foldl_collapse true ((cwd.splitOn slash).foldl (push false) []) (.inl rfl)
      _ hsegments
    rw [← List.foldl_append, ← List.foldl_append] at hcollapse
    exact congrArg List.reverse hcollapse

theorem join_injective (hdir : dir ≠ []) {name' : Path} (hname : IsComponent name)
    (hname' : IsComponent name') (h : join dir name = join dir name') : name = name' := by
  have hresolve := resolve_join [] hdir hname
  rw [h, resolve_join [] hdir hname'] at hresolve
  simpa using hresolve.symm

theorem dropCommon_append (ps qs : List Path) : dropCommon ps (ps ++ qs) = ([], qs) := by
  induction ps with
  | nil => cases qs <;> rfl
  | cons p ps ih => rw [List.cons_append, dropCommon, if_pos rfl, ih]

/-- The way from a directory to what is joined to it. -/
theorem relative_join (cwd : Path) (hdir : dir ≠ []) (hname : IsComponent name) :
    relative cwd dir (join dir name) = name := by
  have hresolve := resolve_join cwd hdir hname
  have hne : dir ≠ join dir name := by
    intro heq
    rw [← heq] at hresolve
    exact absurd (congrArg List.length hresolve) (by simp)
  rw [relative, if_neg hne, hresolve, dropCommon_append]
  simp [List.intercalate]

end Join

end PosixPath
