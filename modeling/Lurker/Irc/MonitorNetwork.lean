import Lurker.Irc.MonitorList
import Lurker.Lib.Run

/-!
# The list and the network's

The network holds so many of our nicks and no more. It takes the lines in the
order they were sent, each nick of a `MONITOR +` while there is room, and answers
a line that overflowed with one 734. Syncs, lines taken and answers noted happen
in any order.
-/

namespace Lurker.Irc

attribute [local instance] str_lawfulBEq

variable {η : Type} [DecidableEq η]

/-- A nick as it can stand on a line. -/
structure Nick where
  text : Str
  noComma : ',' ∉ text

section Network

variable (K : Nat) (fold : Str → Str)

/-- Take one nick while there is room, or refuse it. -/
def takeNick (acc : List Str × List Str) (nick : Str) : List Str × List Str :=
  let (held, refused) := acc
  if fold nick ∈ held then (held, refused)
  else if held.length < K then (held ++ [fold nick], refused)
  else (held, refused ++ [nick])

/-- Take a line: what the network then holds, and the nicks of each 734 still to be noted. -/
def takeLine (net : List Str × List Str) : MonitorLine → List Str × List Str
  | .remove targets => (net.1.filter fun key => key ∉ (pieces ',' targets).map fold, net.2)
  | .add targets =>
    let (held, refused) := (pieces ',' targets).foldl (takeNick K fold) (net.1, [])
    (held, if refused = [] then net.2 else net.2 ++ [[','].intercalate refused])
  | .status => net

/-- A list, the network it is sent to, and what is under way between them. -/
structure Monitored (η : Type) where
  list : MonitorList η
  /-- Lines the network has not taken yet. -/
  queue : List MonitorLine
  /-- The nicks of ours the network holds, folded. -/
  held : List Str
  /-- The nicks of each 734 that is still to be noted. -/
  answers : List Str

namespace Monitored

def start : Monitored η := ⟨.start, [], [], []⟩

inductive Event (η : Type) where
  | sync (own : List Nick) (targets : η → List Nick) (limit : Limit)
  | taken
  | noted
  | status (nicks : List Str) (online : Bool)
  | requestStatus
  | turnEnds
  | addHolder (holder : η)
  | removeHolder (holder : η)
  | reset

def texts (nicks : List Nick) : List Str := nicks.map Nick.text

def step (s : Monitored η) : Event η → Monitored η
  | .sync own targets limit =>
    let r := s.list.sync fold (texts own) (fun holder => texts (targets holder)) limit
    { s with list := r.list, queue := s.queue ++ r.lines }
  | .taken =>
    match s.queue with
    | [] => s
    | line :: queue =>
      let (held, answers) := takeLine K fold (s.held, s.answers) line
      { s with queue, held, answers }
  | .noted =>
    match s.answers with
    | [] => s
    | refused :: answers =>
      { s with list := s.list.noteRefused fold (pieces ',' refused), answers }
  | .status nicks online => { s with list := s.list.noteStatus fold nicks online }
  | .requestStatus => { s with list := s.list.requestStatus }
  | .turnEnds =>
    let (list, lines) := s.list.turnEnds
    { s with list, queue := s.queue ++ lines }
  | .addHolder holder => { s with list := s.list.addHolder holder }
  | .removeHolder holder => { s with list := (s.list.removeHolder holder).1 }
  | .reset => { s with list := s.list.reset, queue := [], held := [], answers := [] }

/-- All lines are taken and all answers noted. -/
def Quiet (s : Monitored η) : Prop := s.queue = [] ∧ s.answers = []

/-- The keys a sync wants. -/
def wantedKeys (holders : List η) (own : List Nick) (targets : η → List Nick) : List Str :=
  (MonitorList.wantedOf fold (texts own) holders fun holder => texts (targets holder)).wanted.keys

/-- An event of the same socket, between one sync and the next. -/
def Event.Between : Event η → Prop
  | .sync .. | .reset => False
  | _ => True

/-- Once all answers are noted the list is the network's, and a sync that wants what the
last one wanted adds nothing. -/
structure Converges (es : List (Event η)) : Prop where
  agrees : Quiet (Run.after (step K fold) start es) → ∀ key,
    (Run.after (step K fold) start es).list.listed.has key = true ↔
      key ∈ (Run.after (step K fold) start es).held
  settles : ∀ es₁ own targets limit es₂, es = es₁ ++ .sync own targets limit :: es₂ →
    (∀ e ∈ es₂, e.Between) → Quiet (Run.after (step K fold) start es) →
    ∀ own' targets',
      (∀ key, key ∈ wantedKeys fold (Run.after (step K fold) start es).list.holders own' targets' ↔
        key ∈ wantedKeys fold (Run.after (step K fold) start es₁).list.holders own targets) →
      ∀ nicks, MonitorLine.add nicks ∉
        ((Run.after (step K fold) start es).list.sync fold (texts own')
          (fun holder => texts (targets' holder)) limit).lines

/-- What the network will hold, and will have answered, once it has taken every line. -/
def settled (s : Monitored η) : List Str × List Str :=
  s.queue.foldl (takeLine K fold) (s.held, s.answers)

/-- A sync that finds nothing to send. -/
def Idle (m : MonitorList η) (own : List Nick) (targets : η → List Nick) (limit : Limit) : Prop :=
  (∀ key, m.listed.has key = true → key ∈ wantedKeys fold m.holders own targets) ∧
    ((∀ key ∈ wantedKeys fold m.holders own targets, m.listed.has key = true) ∨
      (limit.min m.cap).reached m.listed.size = true)

/-- No wanted nick is named by a refusal that is still to be noted. -/
def Clear (s : Monitored η) (own : List Nick) (targets : η → List Nick) : Prop :=
  ∀ refused ∈ (settled K fold s).2, ∀ nick ∈ pieces ',' refused,
    fold nick ∉ wantedKeys fold s.list.holders own targets

/-- The nicks that fit no more are all on one line. -/
def OneOverflows (m : MonitorList η) (own : List Nick) (targets : η → List Nick) (limit : Limit) :
    Prop :=
  ∀ lines last,
    packTargets ((MonitorList.offeredOf fold (texts own) (fun holder => texts (targets holder))
      limit m).map Prod.snd) maxTargetBytes = lines ++ [last] →
    (MonitorList.keptOf fold (texts own) (fun holder => texts (targets holder)) m).size +
      (namesOf lines).length ≤ K

/-- The steps after which the list converges. -/
def Careful (s : Monitored η) : Event η → Prop
  | .sync own targets limit => Idle fold s.list own targets limit ∨
      (Clear K fold s own targets ∧ OneOverflows K fold s.list own targets limit)
  | _ => True

end Monitored

end Network

section Lines

variable {K : Nat} {fold : Str → Str}

theorem takeNicks_full {nicks held refused : List Str} (hfull : K ≤ held.length)
    (hnew : ∀ nick ∈ nicks, fold nick ∉ held) :
    nicks.foldl (takeNick K fold) (held, refused) = (held, refused ++ nicks) := by
  induction nicks generalizing refused with
  | nil => simp
  | cons nick nicks ih =>
    obtain ⟨hhead, htail⟩ := List.forall_mem_cons.mp hnew
    have htake : takeNick K fold (held, refused) nick = (held, refused ++ [nick]) := by
      simp only [takeNick]
      rw [if_neg hhead, if_neg (by omega)]
    rw [List.foldl_cons, htake, ih htail]
    simp

/-- New nicks are taken up to the network's room, and the others refused. -/
theorem takeNicks_new {nicks held : List Str} (hdistinct : (nicks.map fold).Nodup)
    (hnew : ∀ nick ∈ nicks, fold nick ∉ held) :
    nicks.foldl (takeNick K fold) (held, []) =
      (held ++ (nicks.take (K - held.length)).map fold, nicks.drop (K - held.length)) := by
  induction nicks generalizing held with
  | nil => simp
  | cons nick nicks ih =>
    by_cases hroom : held.length < K
    · obtain ⟨hhead, htail⟩ := List.forall_mem_cons.mp hnew
      rw [List.map_cons, List.nodup_cons] at hdistinct
      obtain ⟨r, hr⟩ : ∃ r, K - held.length = r + 1 := ⟨K - held.length - 1, by omega⟩
      have hr' : K - (held ++ [fold nick]).length = r := by
        rw [List.length_append]
        simp only [List.length_cons, List.length_nil]
        omega
      have htake : takeNick K fold (held, []) nick = (held ++ [fold nick], []) := by
        simp only [takeNick]
        rw [if_neg hhead, if_pos hroom]
      rw [List.foldl_cons, htake, ih hdistinct.2, hr', hr]
      · simp
      · intro n hn hmem
        rw [List.mem_append, List.mem_singleton] at hmem
        apply hmem.elim (htail n hn)
        intro heq
        exact hdistinct.1 (heq ▸ List.mem_map_of_mem hn)
    · rw [takeNicks_full (by simpa using hroom) hnew]
      simp [Nat.sub_eq_zero_of_le (Nat.le_of_not_lt hroom)]

theorem takeLines_append (net : List Str × List Str) (l l' : List MonitorLine) :
    (l ++ l').foldl (takeLine K fold) net =
      l'.foldl (takeLine K fold) (l.foldl (takeLine K fold) net) :=
  List.foldl_append

/-- The answers a line draws come after those that were there. -/
theorem takeLine_answers (held answers : List Str) (line : MonitorLine) :
    takeLine K fold (held, answers) line =
      ((takeLine K fold (held, []) line).1, answers ++ (takeLine K fold (held, []) line).2) := by
  cases line with
  | remove targets => simp [takeLine]
  | add targets =>
    simp only [takeLine]
    split <;> simp
  | status => simp [takeLine]

theorem takeLines_answers (held answers : List Str) (lines : List MonitorLine) :
    lines.foldl (takeLine K fold) (held, answers) =
      ((lines.foldl (takeLine K fold) (held, [])).1,
        answers ++ (lines.foldl (takeLine K fold) (held, [])).2) := by
  induction lines generalizing held answers with
  | nil => simp
  | cons line lines ih =>
    rw [List.foldl_cons, List.foldl_cons, takeLine_answers held answers line]
    rw [ih, ih (takeLine K fold (held, []) line).1 (takeLine K fold (held, []) line).2]
    simp

theorem takeLines_remove (net : List Str × List Str) (lists : List Str) :
    (lists.map MonitorLine.remove).foldl (takeLine K fold) net =
      (net.1.filter fun key => key ∉ (namesOf lists).map fold, net.2) := by
  induction lists generalizing net with
  | nil => simp [namesOf]
  | cons l lists ih =>
    rw [List.map_cons, List.foldl_cons, ih]
    simp only [takeLine, List.filter_filter, namesOf, List.flatMap_cons, List.map_append,
      List.mem_append, not_or, Bool.decide_and]
    refine congrArg (fun held => (held, net.2)) (List.filter_congr fun key _ => ?_)
    exact Bool.and_comm _ _

/-- Lines whose nicks all fit draw no answer. -/
theorem takeLines_fit {lists held answers : List Str} (hdistinct : ((namesOf lists).map fold).Nodup)
    (hnew : ∀ nick ∈ namesOf lists, fold nick ∉ held)
    (hfit : held.length + (namesOf lists).length ≤ K) :
    (lists.map MonitorLine.add).foldl (takeLine K fold) (held, answers) =
      (held ++ (namesOf lists).map fold, answers) := by
  induction lists generalizing held with
  | nil => simp [namesOf]
  | cons l lists ih =>
    have hcons : namesOf (l :: lists) = pieces ',' l ++ namesOf lists := rfl
    rw [hcons] at hdistinct hnew hfit
    rw [List.map_append, List.nodup_append] at hdistinct
    obtain ⟨hl, hlists, hapart⟩ := hdistinct
    rw [List.length_append] at hfit
    have htake : takeLine K fold (held, answers) (.add l) =
        (held ++ (pieces ',' l).map fold, answers) := by
      simp only [takeLine]
      rw [takeNicks_new hl fun n hn => hnew n (List.mem_append_left _ hn)]
      rw [List.take_of_length_le (by omega), List.drop_of_length_le (by omega)]
      simp
    rw [List.map_cons, List.foldl_cons, htake, ih hlists]
    · rw [hcons, List.map_append, List.append_assoc]
    · intro n hn hmem
      rw [List.mem_append] at hmem
      apply hmem.elim (hnew n (List.mem_append_right _ hn))
      intro hmem
      exact hapart _ hmem _ (List.mem_map_of_mem hn) rfl
    · rw [List.length_append, List.length_map]
      omega

theorem pieces_intercalate {nicks : List Str} (h : ∀ n ∈ nicks, Single n) (hne : nicks ≠ []) :
    pieces ',' ([','].intercalate nicks) = nicks := by
  unfold pieces
  rw [List.splitOn_intercalate ',' (fun n hn => (h n hn).2) hne]
  exact List.filter_eq_self.mpr fun n hn => by simpa using (h n hn).1

/-- When only the last line overflows, the network takes the nicks up to its room and
answers with the others, if there are any. -/
theorem takeLines_add {nicks held answers : List Str} (hsingle : ∀ n ∈ nicks, Single n)
    (hdistinct : (nicks.map fold).Nodup) (hnew : ∀ nick ∈ nicks, fold nick ∉ held)
    (hone : ∀ lines last, packTargets nicks maxTargetBytes = lines ++ [last] →
      held.length + (namesOf lines).length ≤ K) :
    ((packTargets nicks maxTargetBytes).map MonitorLine.add).foldl (takeLine K fold)
        (held, answers) =
      (held ++ (nicks.take (K - held.length)).map fold,
        answers ++ if nicks.drop (K - held.length) = [] then []
          else [[','].intercalate (nicks.drop (K - held.length))]) := by
  have hnames : namesOf (packTargets nicks maxTargetBytes) = nicks := namesOf_packTargets hsingle
  cases hpack : packTargets nicks maxTargetBytes using List.reverseRecOn with
  | nil =>
    rw [hpack] at hnames
    have hnil : nicks = [] := hnames.symm
    simp [hnil]
  | append_singleton lines last ih =>
    have hfit := hone lines last hpack
    have hsplit : nicks = namesOf lines ++ pieces ',' last := by
      rw [← hnames, hpack]
      simp [namesOf]
    have hdistinct' := hdistinct
    rw [hsplit, List.map_append, List.nodup_append] at hdistinct'
    obtain ⟨hlines, hlast, hapart⟩ := hdistinct'
    have hroom : K - (held ++ (namesOf lines).map fold).length =
        K - held.length - (namesOf lines).length := by
      rw [List.length_append, List.length_map]
      omega
    rw [List.map_append, takeLines_append, takeLines_fit hlines
      (fun n hn => hnew n (hsplit ▸ List.mem_append_left _ hn)) hfit]
    have htake : takeLine K fold (held ++ (namesOf lines).map fold, answers) (.add last) =
        (held ++ (nicks.take (K - held.length)).map fold,
          answers ++ if nicks.drop (K - held.length) = [] then []
            else [[','].intercalate (nicks.drop (K - held.length))]) := by
      simp only [takeLine]
      rw [takeNicks_new hlast, hroom, hsplit, List.take_append, List.drop_append,
        List.take_of_length_le (by omega : (namesOf lines).length ≤ K - held.length),
        List.drop_of_length_le (by omega : (namesOf lines).length ≤ K - held.length)]
      · by_cases hdrop : (pieces ',' last).drop (K - held.length - (namesOf lines).length) = []
        · rw [hdrop]
          simp
        · rw [if_neg hdrop, List.nil_append, if_neg hdrop]
          simp
      · intro n hn hmem
        rw [List.mem_append] at hmem
        apply hmem.elim (hnew n (hsplit ▸ List.mem_append_right _ hn))
        intro hmem
        exact hapart _ hmem _ (List.mem_map_of_mem hn) rfl
    exact htake

end Lines

end Lurker.Irc
