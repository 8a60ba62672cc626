import KernelSpace.Lib.Machine
import KernelSpace.Lib.Receipts
import Mathlib.Data.List.Induction

/-!
# Lifecycle — a component with a start, a stop and users

A component that takes resources in stages: those of a stage are asked for one
after the other, and then the answers are tested together, if they are tested at
all. A test that fails gives something back at once and goes to a label; from
there on it runs through all that stands behind. The stop has a list of its own.
Both lists are run as they are written: what is given back without being there
goes into the log all the same, unless its giving back is `silent` then.

A `Setup` is a component that is written well: the code behind each label is for
the stages below it (`Undoes`), and the stop is for all of them. Users come in
while the `door` is taken, and bring in others. A component with users does not
stop; but one that fails to start does not ask whether it has any.

Every run of a `Setup` keeps `Inv`: the ledger is right, and nothing is there
without the tested stages below it (`Stands.layered`). In runs whose users come
when the start is over, they find everything in its place (`in_use`).
-/

namespace KernelSpace.Lib

/-- What a failing test does: it gives back `releases` and goes to a label. What is
reported is `error`, or else the answer of the call that was refused. -/
structure Failure (R : Type*) where
  error : Option Int
  releases : List R
  goto : Option String

/-- Some resources, and the test of the answers. -/
structure Stage (R : Type*) where
  takes : List R
  test : Option (Failure R)

/-- A start: its stages, and the labels in the order in which they stand behind
them, each with what it gives back. -/
structure Init (R : Type*) where
  stages : List (Stage R)
  labels : List (String × List R)

variable {R : Type*}

def Stage.tested (stage : Stage R) : Bool := stage.test.isSome

/-- All that is given back from a label on. -/
def Init.fallThrough (init : Init R) (label : String) : List R :=
  (init.labels.dropWhile fun entry => entry.1 != label).flatMap Prod.snd

/-- All that is given back behind a failing test. -/
def Init.undo (init : Init R) (failure : Failure R) : List R :=
  failure.releases ++ failure.goto.elim [] init.fallThrough

/-- The resources of some stages, the last stage first. -/
def Stage.order (stages : List (Stage R)) : List R := stages.reverse.flatMap Stage.takes

/-- The code for a failing `stage` behind the stages `done`: nothing of the stage
can be there, or it does not matter whether it is. -/
def Undoes (silent : R → Bool) (done : List (Stage R)) (stage : Stage R) (code : List R) : Prop :=
  code = Stage.order done ∧ stage.takes.length ≤ 1 ∨
    code = stage.takes ++ Stage.order done ∧ ∀ r ∈ stage.takes, silent r = true

instance [DecidableEq R] (silent : R → Bool) (done : List (Stage R)) (stage : Stage R)
    (code : List R) : Decidable (Undoes silent done stage code) :=
  inferInstanceAs (Decidable (_ ∨ _))

/-- A component: its start, its stop, and the resource that lets users in. -/
structure Setup (R : Type*) where
  init : Init R
  exit : List R
  door : R
  /-- Giving it back does nothing when it is not there. -/
  silent : R → Bool
  nodup : (Stage.order init.stages).Nodup
  error : ∀ stage ∈ init.stages, ∀ failure ∈ stage.test, failure.error ≠ some 0
  untested : ∀ stage ∈ init.stages, stage.tested = false → ∀ r ∈ stage.takes, silent r = true
  undoes : ∀ i < init.stages.length, ∀ stage ∈ init.stages[i]?, ∀ failure ∈ stage.test,
    Undoes silent (init.stages.take i) stage (init.undo failure)
  exits : exit = Stage.order init.stages

namespace Lifecycle

inductive Phase (R : Type*) where
  | absent
  /-- In `stage`, with `todo` left of it; `refused` is the last answer that was
  not 0. -/
  | starting (done : List (Stage R)) (stage : Stage R) (todo : List R) (refused : Int)
      (rest : List (Stage R))
  /-- Behind a failing test, with `code` left to run. -/
  | failing (code : List R)
  | running
  | stopping (code : List R)

structure State (R : Type*) where
  phase : Phase R
  /-- Taken in the stage that is not tested yet. -/
  got : List R
  held : List R
  /-- What the last start has returned. -/
  ret : Int
  users : Nat
  log : List (Receipt R)

inductive Event where
  | start
  /-- `ret` is the answer, 0 where the resource is taken. -/
  | take (ret : Int)
  | test
  | giveBack
  | finish
  | stop
  | enter
  | share
  | leave
deriving DecidableEq

def State.taken (s : State R) : List R := s.got ++ s.held

/-- New users are let in. -/
def Phase.admits : Phase R → Bool
  | stopping _ => false
  | _ => true

/-- On to the stages that are left. -/
def State.goOn (s : State R) (done : List (Stage R)) : List (Stage R) → State R
  | [] => { s with phase := .running, ret := 0 }
  | stage :: rest => { s with phase := .starting done stage stage.takes 0 rest }

/-- The test of a stage that is through. -/
def State.judge (s : State R) (init : Init R) (done : List (Stage R)) (stage : Stage R)
    (refused : Int) (rest : List (Stage R)) : State R :=
  match stage.test with
  | some failure =>
    if refused = 0 then s.goOn (done ++ [stage]) rest
    else { s with phase := .failing (init.undo failure), ret := failure.error.getD refused }
  | none => s.goOn (done ++ [stage]) rest

/-- One line of the code behind a label or of the stop. -/
def State.giveBack [DecidableEq R] (s : State R) (silent : R → Bool) (r : R) : State R :=
  if silent r && !s.held.contains r then s
  else { s with held := s.held.erase r, log := s.log ++ [.release r] }

/-! ## Stages -/

theorem order_append (a b : List (Stage R)) :
    Stage.order (a ++ b) = Stage.order b ++ Stage.order a := by
  simp [Stage.order]

theorem order_cons (stage : Stage R) (rest : List (Stage R)) :
    Stage.order (stage :: rest) = Stage.order rest ++ stage.takes := by
  simp [Stage.order]

theorem mem_order {stages : List (Stage R)} {r : R} :
    r ∈ Stage.order stages ↔ ∃ stage ∈ stages, r ∈ stage.takes := by
  simp [Stage.order]

/-- The resources of the stages `done` that are there: all that are looked at. -/
structure Holds (done : List (Stage R)) (held : List R) : Prop where
  sublist : held.Sublist (Stage.order done)
  tested : ∀ stage ∈ done, stage.tested = true → ∀ r ∈ stage.takes, r ∈ held

/-- What is there is given back in the order of `code`, and what is not there does
not matter. -/
structure Due (silent : R → Bool) (code held : List R) : Prop where
  nodup : code.Nodup
  sublist : held.Sublist code
  there : ∀ r ∈ code, silent r = false → r ∈ held

/-- Some resources of a stage, on top of the stages below it. -/
def Stands (stages : List (Stage R)) (taken : List R) : Prop :=
  taken = [] ∨ ∃ done stage rest top bottom, stages = done ++ stage :: rest ∧
    taken = top ++ bottom ∧ top.Sublist stage.takes ∧ Holds done bottom

/-- What is there stands on whole stages, as far as they are looked at. -/
def Layered (stages : List (Stage R)) (taken : List R) : Prop :=
  stages.Pairwise fun lower upper =>
    lower.tested = true → (∃ r ∈ upper.takes, r ∈ taken) → ∀ r ∈ lower.takes, r ∈ taken

section

variable {stages done rest : List (Stage R)} {stage : Stage R} {held top bottom taken : List R}

theorem Holds.concat (h : Holds done bottom) (htop : top.Sublist stage.takes)
    (hall : stage.tested = true → top = stage.takes) : Holds (done ++ [stage]) (top ++ bottom) where
  sublist := by
    rw [order_append]
    have hstage : Stage.order [stage] = stage.takes := by simp [Stage.order]
    rw [hstage]
    exact htop.append h.sublist
  tested := by
    intro lower hlower htested r hr
    rcases List.mem_append.mp hlower with hdone | hlast
    · exact List.mem_append_right _ (h.tested lower hdone htested r hr)
    · cases List.mem_singleton.mp hlast
      rw [hall htested]
      exact List.mem_append_left _ hr

/-- The last stage apart from the others. -/
theorem Holds.split (h : Holds (done ++ [stage]) held)
    (hnodup : (Stage.order (done ++ [stage])).Nodup) :
    ∃ top bottom, held = top ++ bottom ∧ top.Sublist stage.takes ∧ Holds done bottom := by
  have hstage : Stage.order [stage] = stage.takes := by simp [Stage.order]
  have hsublist := h.sublist
  rw [order_append, hstage] at hsublist hnodup
  obtain ⟨top, bottom, rfl, htop, hbottom⟩ := List.sublist_append_iff.mp hsublist
  refine ⟨top, bottom, rfl, htop, hbottom, fun lower hlower htested r hr => ?_⟩
  have hmem := h.tested lower (List.mem_append_left _ hlower) htested r hr
  rcases List.mem_append.mp hmem with hin | hin
  · have horder : r ∈ Stage.order done := mem_order.mpr ⟨lower, hlower, hr⟩
    exact absurd horder (List.disjoint_of_nodup_append hnodup (htop.subset hin))
  · exact hin

theorem nodup_left (hstages : stages = done ++ rest) (hnodup : (Stage.order stages).Nodup) :
    (Stage.order done).Nodup := by
  rw [hstages, order_append] at hnodup
  exact hnodup.of_append_right

theorem Holds.stands (h : Holds done held) (hstages : stages = done ++ rest)
    (hnodup : (Stage.order stages).Nodup) : Stands stages held := by
  cases done using List.reverseRecOn with
  | nil => exact .inl (List.sublist_nil.mp h.sublist)
  | append_singleton done stage _ =>
    obtain ⟨top, bottom, rfl, htop, hbottom⟩ := h.split (nodup_left hstages hnodup)
    exact .inr ⟨done, stage, rest, top, bottom, by rw [hstages, List.append_assoc]; rfl, rfl, htop,
      hbottom⟩

/-- The first thing given back is of the last stage that has any. -/
theorem Holds.stands_tail {r : R} (h : Holds done (r :: held)) (hstages : stages = done ++ rest)
    (hnodup : (Stage.order stages).Nodup) : Stands stages held := by
  induction done using List.reverseRecOn generalizing rest with
  | nil => cases h.sublist
  | append_singleton done stage ih =>
    have hstages' : stages = done ++ stage :: rest := by rw [hstages, List.append_assoc]; rfl
    obtain ⟨top, bottom, heq, htop, hbottom⟩ := h.split (nodup_left hstages hnodup)
    cases top with
    | nil =>
      rw [List.nil_append] at heq
      exact ih (by rwa [← heq] at hbottom) hstages'
    | cons r' top =>
      obtain ⟨rfl, rfl⟩ := List.cons.inj heq
      exact .inr ⟨done, stage, rest, top, bottom, hstages', rfl,
        (List.sublist_cons_self r top).trans htop, hbottom⟩

theorem Stands.tail {r : R} (h : Stands stages (r :: held)) (hnodup : (Stage.order stages).Nodup) :
    Stands stages held := by
  obtain hnil | ⟨done, stage, rest, top, bottom, hstages, heq, htop, hbottom⟩ := h
  · cases hnil
  · cases top with
    | nil =>
      rw [List.nil_append] at heq
      rw [← heq] at hbottom
      exact hbottom.stands_tail hstages hnodup
    | cons r' top =>
      obtain ⟨rfl, rfl⟩ := List.cons.inj heq
      exact .inr ⟨done, stage, rest, top, bottom, hstages, rfl,
        (List.sublist_cons_self r top).trans htop, hbottom⟩

theorem Stands.nodup (h : Stands stages taken) (hnodup : (Stage.order stages).Nodup) :
    taken.Nodup := by
  obtain rfl | ⟨done, stage, rest, top, bottom, rfl, rfl, htop, hbottom⟩ := h
  · exact List.nodup_nil
  · rw [order_append, order_cons, List.append_assoc] at hnodup
    exact (htop.append hbottom.sublist).nodup hnodup.of_append_right

theorem Holds.due {silent : R → Bool} (h : Holds done held) (hnodup : (Stage.order done).Nodup)
    (huntested : ∀ stage ∈ done, stage.tested = false → ∀ r ∈ stage.takes, silent r = true) :
    Due silent (Stage.order done) held where
  nodup := hnodup
  sublist := h.sublist
  there := by
    intro r hr hloud
    obtain ⟨stage, hstage, hr⟩ := mem_order.mp hr
    cases htested : stage.tested with
    | true => exact h.tested stage hstage htested r hr
    | false =>
      rw [huntested stage hstage htested r hr] at hloud
      cases hloud

/-- The code for a failing stage is for what is there then. -/
theorem due_of_undoes {silent : R → Bool} {code got : List R} (h : Undoes silent done stage code)
    (hholds : Holds done held) (hgot : got.Sublist stage.takes) (hrefused : got ≠ stage.takes)
    (hnodup : (Stage.order (done ++ [stage])).Nodup)
    (huntested : ∀ stage ∈ done, stage.tested = false → ∀ r ∈ stage.takes, silent r = true) :
    Due silent code (got ++ held) := by
  have hstage : Stage.order [stage] = stage.takes := by simp [Stage.order]
  rw [order_append, hstage] at hnodup
  have hdue := hholds.due hnodup.of_append_right huntested
  obtain ⟨rfl, hone⟩ | ⟨rfl, hsilent⟩ := h
  · have hless : got.length < stage.takes.length :=
      Nat.lt_of_le_of_ne hgot.length_le fun heq => hrefused (hgot.eq_of_length heq)
    have hnil : got = [] := List.eq_nil_of_length_eq_zero (by omega)
    rw [hnil, List.nil_append]
    exact hdue
  · refine ⟨hnodup, hgot.append hdue.sublist, fun r hr hloud => ?_⟩
    rcases List.mem_append.mp hr with hr | hr
    · rw [hsilent r hr] at hloud
      cases hloud
    · exact List.mem_append_right _ (hdue.there r hr hloud)

/-- The next line of the code gives back the first of what is there, or it has
nothing to give back. -/
theorem Due.cases {silent : R → Bool} {r : R} {code : List R} (h : Due silent (r :: code) held) :
    (∃ held', held = r :: held' ∧ Due silent code held') ∨
      r ∉ held ∧ silent r = true ∧ Due silent code held := by
  obtain ⟨hr, hnodup⟩ := List.nodup_cons.mp h.nodup
  rcases List.sublist_cons_iff.mp h.sublist with hsub | ⟨held', rfl, hsub⟩
  · have hnot : r ∉ held := fun hmem => hr (hsub.subset hmem)
    refine .inr ⟨hnot, ?_, hnodup, hsub, fun r' hr' => h.there r' (List.mem_cons_of_mem r hr')⟩
    by_contra hloud
    exact hnot (h.there r List.mem_cons_self (by simpa using hloud))
  · refine .inl ⟨held', rfl, hnodup, hsub, fun r' hr' hloud => ?_⟩
    have hmem := h.there r' (List.mem_cons_of_mem r hr') hloud
    exact (List.mem_cons.mp hmem).resolve_left fun heq => hr (heq ▸ hr')

/-- **Layers**: nothing is there without the tested stages below it. -/
theorem Stands.layered (h : Stands stages taken) (hnodup : (Stage.order stages).Nodup) :
    Layered stages taken := by
  obtain rfl | ⟨done, stage, rest, top, bottom, rfl, rfl, htop, hbottom⟩ := h
  · exact List.pairwise_of_forall fun _ _ _ ⟨_, _, hr⟩ => absurd hr List.not_mem_nil
  · -- nothing above the stage is there
    have hnone : ∀ upper ∈ rest, ∀ r ∈ upper.takes, r ∉ top ++ bottom := by
      intro upper hupper r hr hmem
      rw [order_append, order_cons, List.append_assoc] at hnodup
      refine List.disjoint_of_nodup_append hnodup (mem_order.mpr ⟨upper, hupper, hr⟩) ?_
      exact (htop.append hbottom.sublist).subset hmem
    refine List.pairwise_append.mpr ⟨?_, List.pairwise_cons.mpr ⟨?_, ?_⟩, ?_⟩
    · exact List.pairwise_of_forall_mem_list fun lower hlower _ _ htested _ r hr =>
        List.mem_append_right _ (hbottom.tested lower hlower htested r hr)
    · rintro upper hupper - ⟨r, hr, hmem⟩
      exact absurd hmem (hnone upper hupper r hr)
    · refine List.pairwise_of_forall_mem_list fun _ _ upper hupper _ hex => ?_
      obtain ⟨r, hr, hmem⟩ := hex
      exact absurd hmem (hnone upper hupper r hr)
    · intro lower hlower _ _ htested _ r hr
      exact List.mem_append_right _ (hbottom.tested lower hlower htested r hr)

end

theorem goOn_users (s : State R) (done rest : List (Stage R)) :
    (s.goOn done rest).users = s.users := by
  cases rest <;> rfl

theorem judge_users (s : State R) (init : Init R) (done : List (Stage R)) (stage : Stage R)
    (refused : Int) (rest : List (Stage R)) :
    (s.judge init done stage refused rest).users = s.users := by
  unfold State.judge
  split
  · split
    · exact goOn_users ..
    · rfl
  · exact goOn_users ..

theorem giveBack_users [DecidableEq R] (s : State R) (silent : R → Bool) (r : R) :
    (s.giveBack silent r).users = s.users := by
  unfold State.giveBack
  split <;> rfl

/-- Users come when the start is over. -/
def Polite (s : State R) (e : Event) : Prop := e = .enter → s.phase = .running

/-! ## The machine -/

variable [DecidableEq R] (setup : Setup R)

def step (s : State R) : Event → Option (State R)
  | .start =>
    match s.phase with
    | .absent => some (s.goOn [] setup.init.stages)
    | _ => none
  | .take ret =>
    match s.phase with
    | .starting done stage (r :: todo) refused rest =>
      if ret = 0 then
        some { s with
          phase := .starting done stage todo refused rest
          got := s.got ++ [r]
          log := s.log ++ [.acquire r] }
      else some { s with phase := .starting done stage todo ret rest }
    | _ => none
  | .test =>
    match s.phase with
    | .starting done stage [] refused rest =>
      some ({ s with got := [], held := s.got ++ s.held }.judge setup.init done stage refused rest)
    | _ => none
  | .giveBack =>
    match s.phase with
    | .failing (r :: code) => some { s.giveBack setup.silent r with phase := .failing code }
    | .stopping (r :: code) => some { s.giveBack setup.silent r with phase := .stopping code }
    | _ => none
  | .finish =>
    match s.phase with
    | .failing [] | .stopping [] => some { s with phase := .absent }
    | _ => none
  | .stop =>
    match s.phase with
    | .running => if s.users = 0 then some { s with phase := .stopping setup.exit } else none
    | _ => none
  | .enter =>
    if s.taken.contains setup.door && s.phase.admits then some { s with users := s.users + 1 }
    else none
  | .share => if 0 < s.users then some { s with users := s.users + 1 } else none
  | .leave => if 0 < s.users then some { s with users := s.users - 1 } else none

def machine : Machine (State R) Event := ⟨⟨.absent, [], [], 0, 0, []⟩, step setup⟩

/-! ## The invariant -/

/-- In the middle of a stage. -/
structure InStage (got held : List R) (done : List (Stage R)) (stage : Stage R) (todo : List R)
    (refused : Int) (rest : List (Stage R)) : Prop where
  stages : setup.init.stages = done ++ stage :: rest
  holds : Holds done held
  tried : ∃ tried, stage.takes = tried ++ todo ∧ got.Sublist tried ∧ (refused = 0 ↔ got = tried)

structure Inv (s : State R) : Prop where
  ledger : ∃ l, Receipt.replay [] s.log = some l ∧ l.Perm s.taken
  stands : Stands setup.init.stages s.taken
  phase :
    match s.phase with
    | .absent => s.taken = []
    | .starting done stage todo refused rest =>
      InStage setup s.got s.held done stage todo refused rest
    | .failing code => s.got = [] ∧ s.ret ≠ 0 ∧ Due setup.silent code s.held
    | .running => s.got = [] ∧ s.ret = 0 ∧ Holds setup.init.stages s.held
    | .stopping code => s.got = [] ∧ Due setup.silent code s.held

section

variable {setup} {s s' : State R} {e : Event}

theorem inv_init : Inv setup (machine setup).init where
  ledger := ⟨[], rfl, .nil⟩
  stands := .inl rfl
  phase := rfl

theorem inv_goOn {done rest : List (Stage R)}
    (hledger : ∃ l, Receipt.replay [] s.log = some l ∧ l.Perm s.held)
    (hgot : s.got = []) (hstages : setup.init.stages = done ++ rest) (hheld : Holds done s.held) :
    Inv setup (s.goOn done rest) := by
  have htaken : s.taken = s.held := by rw [State.taken, hgot, List.nil_append]
  have hstands : Stands setup.init.stages s.taken := by
    rw [htaken]
    exact hheld.stands hstages setup.nodup
  rw [← htaken] at hledger
  cases rest with
  | nil =>
    rw [List.append_nil] at hstages
    exact ⟨hledger, hstands, hgot, rfl, hstages ▸ hheld⟩
  | cons stage rest =>
    exact ⟨hledger, hstands, hstages, hheld, [], rfl, List.sublist_nil.mpr hgot,
      fun _ => hgot, fun _ => rfl⟩

theorem inv_take {done : List (Stage R)} {stage : Stage R} {r : R} {todo : List R} {refused : Int}
    {rest : List (Stage R)} (h : Inv setup s)
    (hin : InStage setup s.got s.held done stage (r :: todo) refused rest) :
    Inv setup { s with
      phase := .starting done stage todo refused rest
      got := s.got ++ [r]
      log := s.log ++ [.acquire r] } := by
  obtain ⟨l, hlog, hperm⟩ := h.ledger
  obtain ⟨tried, htakes, hgot, hall⟩ := hin.tried
  have hgot' : (s.got ++ [r]).Sublist (tried ++ [r]) := hgot.append (.refl [r])
  have htakes' : stage.takes = (tried ++ [r]) ++ todo := by rw [htakes, List.append_assoc]; rfl
  have hstands : Stands setup.init.stages ((s.got ++ [r]) ++ s.held) :=
    .inr ⟨done, stage, rest, s.got ++ [r], s.held, hin.stages, rfl,
      hgot'.trans (htakes' ▸ List.sublist_append_left ..), hin.holds⟩
  have hmiddle : ((s.got ++ [r]) ++ s.held).Perm (r :: s.taken) := by
    rw [List.append_assoc]
    exact List.perm_middle
  have hnew : r ∉ s.taken :=
    (List.nodup_cons.mp ((hmiddle.nodup_iff).mp (hstands.nodup setup.nodup))).1
  refine ⟨⟨r :: l, Receipt.replay_concat_acquire hlog fun hr => hnew (hperm.subset hr), ?_⟩,
    hstands, hin.stages, hin.holds, tried ++ [r], htakes', hgot', ?_⟩
  · exact (hperm.cons r).trans hmiddle.symm
  · exact hall.trans (List.append_left_inj [r]).symm

theorem giveBack_held {silent : R → Bool} {r : R} {held : List R} (h : s.held = r :: held) :
    s.giveBack silent r = { s with held := held, log := s.log ++ [.release r] } := by
  simp [State.giveBack, h]

theorem giveBack_silent {silent : R → Bool} {r : R} (h : r ∉ s.held) (hsilent : silent r = true) :
    s.giveBack silent r = s := by
  simp [State.giveBack, h, hsilent]

/-- What is given back was there. -/
theorem inv_giveBack {phase : Phase R} {r : R} {code : List R} (h : Inv setup s)
    (hgot : s.got = []) (hdue : Due setup.silent (r :: code) s.held)
    (hphase : phase = .failing code ∧ s.ret ≠ 0 ∨ phase = .stopping code) :
    Inv setup { s.giveBack setup.silent r with phase := phase } := by
  have htaken : s.taken = s.held := by rw [State.taken, hgot, List.nil_append]
  obtain ⟨l, hlog, hperm⟩ := h.ledger
  have hstands := h.stands
  rw [htaken] at hperm hstands
  rcases hdue.cases with ⟨held', hheld, hcode⟩ | ⟨hnot, hsilent, hcode⟩
  · rw [giveBack_held hheld]
    rw [hheld] at hperm hstands
    have hr : r ∈ l := hperm.symm.subset List.mem_cons_self
    have htaken' : State.taken { s with
        phase := phase, held := held', log := s.log ++ [.release r] } = held' := by
      rw [State.taken, show State.got _ = [] from hgot, List.nil_append]
    refine ⟨⟨l.erase r, Receipt.replay_concat_release hlog hr, ?_⟩, ?_, ?_⟩
    · rw [htaken']
      simpa using hperm.erase r
    · rw [htaken']
      exact hstands.tail setup.nodup
    · obtain ⟨rfl, hret⟩ | rfl := hphase
      · exact ⟨hgot, hret, hcode⟩
      · exact ⟨hgot, hcode⟩
  · rw [giveBack_silent hnot hsilent]
    refine ⟨h.ledger, h.stands, ?_⟩
    obtain ⟨rfl, hret⟩ | rfl := hphase
    · exact ⟨hgot, hret, hcode⟩
    · exact ⟨hgot, hcode⟩

/-- A test that fails leaves what the code behind its label is for. -/
theorem inv_judge {done : List (Stage R)} {stage : Stage R} {refused : Int}
    {rest : List (Stage R)} (h : Inv setup s)
    (hin : InStage setup s.got s.held done stage [] refused rest) :
    Inv setup ({ s with got := [], held := s.got ++ s.held }.judge setup.init done stage refused
      rest) := by
  obtain ⟨tried, htakes, hgot, hall⟩ := hin.tried
  rw [List.append_nil] at htakes
  subst htakes
  have hon : (stage.tested = true → s.got = stage.takes) →
      Inv setup (State.goOn { s with got := [], held := s.got ++ s.held } (done ++ [stage]) rest) :=
    fun hpass => inv_goOn h.ledger rfl (by rw [hin.stages, List.append_assoc]; rfl)
      (hin.holds.concat hgot hpass)
  unfold State.judge
  cases htest : stage.test with
  | none => exact hon fun htested => by simp [Stage.tested, htest] at htested
  | some failure =>
    dsimp only
    split
    · rename_i hzero
      exact hon fun _ => hall.mp hzero
    · rename_i hrefused
      have hstage : stage ∈ setup.init.stages := by simp [hin.stages]
      have hdone : ∀ lower ∈ done, lower ∈ setup.init.stages := by
        rw [hin.stages]
        exact fun lower hlower => List.mem_append_left _ hlower
      have hundoes : Undoes setup.silent (setup.init.stages.take done.length) stage
          (setup.init.undo failure) :=
        setup.undoes done.length (by simp [hin.stages]) stage (by simp [hin.stages]) failure htest
      rw [hin.stages, List.take_left] at hundoes
      have hsplit : setup.init.stages = (done ++ [stage]) ++ rest := by
        rw [hin.stages, List.append_assoc]
        rfl
      refine ⟨h.ledger, h.stands, rfl, fun hzero => ?_, ?_⟩
      · cases herror : failure.error with
        | none =>
          rw [herror] at hzero
          exact hrefused hzero
        | some code =>
          rw [herror] at hzero
          exact setup.error stage hstage failure htest (by rw [herror]; exact congrArg some hzero)
      · exact due_of_undoes hundoes hin.holds hgot (fun hfull => hrefused (hall.mpr hfull))
          (nodup_left hsplit setup.nodup)
          fun lower hlower => setup.untested lower (hdone lower hlower)

/-- What each event does. -/
theorem step_spec (h : step setup s e = some s') :
    match e with
    | .start => s.phase = .absent ∧ s' = s.goOn [] setup.init.stages
    | .take ret => ∃ done stage r todo refused rest,
      s.phase = .starting done stage (r :: todo) refused rest ∧
        s' = if ret = 0 then
            { s with
              phase := .starting done stage todo refused rest
              got := s.got ++ [r]
              log := s.log ++ [.acquire r] }
          else { s with phase := .starting done stage todo ret rest }
    | .test => ∃ done stage refused rest, s.phase = .starting done stage [] refused rest ∧
        s' = { s with got := [], held := s.got ++ s.held }.judge setup.init done stage refused rest
    | .giveBack => ∃ r code,
      s.phase = .failing (r :: code) ∧
          s' = { s.giveBack setup.silent r with phase := .failing code } ∨
        s.phase = .stopping (r :: code) ∧
          s' = { s.giveBack setup.silent r with phase := .stopping code }
    | .finish => (s.phase = .failing [] ∨ s.phase = .stopping []) ∧ s' = { s with phase := .absent }
    | .stop => s.phase = .running ∧ s.users = 0 ∧ s' = { s with phase := .stopping setup.exit }
    | .enter => s' = { s with users := s.users + 1 }
    | .share => 0 < s.users ∧ s' = { s with users := s.users + 1 }
    | .leave => 0 < s.users ∧ s' = { s with users := s.users - 1 } := by
  cases e with
  | start =>
    simp only [step] at h
    split at h <;> cases h
    exact ⟨‹_›, rfl⟩
  | take ret =>
    simp only [step] at h
    split at h
    · rename_i done stage r todo refused rest hphase
      refine ⟨done, stage, r, todo, refused, rest, hphase, ?_⟩
      split at h <;> cases h
      · exact (if_pos ‹_›).symm
      · exact (if_neg ‹_›).symm
    · cases h
  | test =>
    simp only [step] at h
    split at h <;> cases h
    exact ⟨_, _, _, _, ‹_›, rfl⟩
  | giveBack =>
    simp only [step] at h
    split at h <;> cases h
    · exact ⟨_, _, .inl ⟨‹_›, rfl⟩⟩
    · exact ⟨_, _, .inr ⟨‹_›, rfl⟩⟩
  | finish =>
    simp only [step] at h
    split at h <;> cases h
    · exact ⟨.inl ‹_›, rfl⟩
    · exact ⟨.inr ‹_›, rfl⟩
  | stop =>
    simp only [step] at h
    split at h
    · split at h <;> cases h
      exact ⟨‹_›, ‹_›, rfl⟩
    · cases h
  | enter =>
    obtain ⟨-, h⟩ := Option.ite_none_right_eq_some.mp h
    exact (Option.some.inj h).symm
  | share | leave =>
    obtain ⟨hpos, h⟩ := Option.ite_none_right_eq_some.mp h
    exact ⟨hpos, (Option.some.inj h).symm⟩

/-- A refused call leaves less than all of the stage. -/
theorem inv_refused {done : List (Stage R)} {stage : Stage R} {r : R} {todo : List R}
    {refused ret : Int} {rest : List (Stage R)} (h : Inv setup s) (hret : ret ≠ 0)
    (hin : InStage setup s.got s.held done stage (r :: todo) refused rest) :
    Inv setup { s with phase := .starting done stage todo ret rest } := by
  obtain ⟨tried, htakes, hgot, -⟩ := hin.tried
  refine ⟨h.ledger, h.stands, hin.stages, hin.holds, tried ++ [r], ?_, ?_, ?_, ?_⟩
  · rw [htakes, List.append_assoc]
    rfl
  · exact hgot.trans (List.sublist_append_left ..)
  · exact fun hzero => absurd hzero hret
  · intro hfull
    have hlength : s.got.length = (tried ++ [r]).length := congrArg List.length hfull
    have hle := hgot.length_le
    rw [List.length_append, List.length_singleton] at hlength
    omega

theorem inv_step (h : Inv setup s) (hs : step setup s e = some s') : Inv setup s' := by
  have hspec := step_spec hs
  obtain ⟨hledger, hstands, hphase⟩ := id h
  cases e with
  | start =>
    obtain ⟨hp, rfl⟩ := hspec
    rw [hp] at hphase
    obtain ⟨hgot, hheld⟩ := List.append_eq_nil_iff.mp hphase
    rw [State.taken, hgot, List.nil_append] at hledger
    exact inv_goOn hledger hgot rfl (by rw [hheld]; exact ⟨.slnil, nofun⟩)
  | take ret =>
    obtain ⟨done, stage, r, todo, refused, rest, hp, rfl⟩ := hspec
    rw [hp] at hphase
    split
    · exact inv_take h hphase
    · exact inv_refused h ‹_› hphase
  | test =>
    obtain ⟨done, stage, refused, rest, hp, rfl⟩ := hspec
    rw [hp] at hphase
    exact inv_judge h hphase
  | giveBack =>
    obtain ⟨r, code, ⟨hp, rfl⟩ | ⟨hp, rfl⟩⟩ := hspec
    · rw [hp] at hphase
      exact inv_giveBack h hphase.1 hphase.2.2 (.inl ⟨rfl, hphase.2.1⟩)
    · rw [hp] at hphase
      exact inv_giveBack h hphase.1 hphase.2 (.inr rfl)
  | finish =>
    obtain ⟨hp, rfl⟩ := hspec
    obtain ⟨hgot, hdue⟩ : s.got = [] ∧ Due setup.silent [] s.held := by
      rcases hp with hp | hp
      · rw [hp] at hphase
        exact ⟨hphase.1, hphase.2.2⟩
      · rwa [hp] at hphase
    have hheld : s.held = [] := List.sublist_nil.mp hdue.sublist
    exact ⟨hledger, hstands, by simp [State.taken, hgot, hheld]⟩
  | stop =>
    obtain ⟨hp, -, rfl⟩ := hspec
    rw [hp] at hphase
    refine ⟨hledger, hstands, hphase.1, ?_⟩
    rw [setup.exits]
    exact hphase.2.2.due setup.nodup setup.untested
  | enter =>
    obtain rfl : s' = { s with users := s.users + 1 } := hspec
    exact ⟨hledger, hstands, hphase⟩
  | share | leave =>
    obtain ⟨-, rfl⟩ := hspec
    exact ⟨hledger, hstands, hphase⟩

theorem inv_of_reachable (h : (machine setup).Reachable s) : Inv setup s :=
  h.inv inv_init fun _ _ _ => inv_step

/-! ## Users -/

theorem users_step (h : s.users = 0 ∨ s.phase = .running) (he : Polite s e)
    (hs : step setup s e = some s') : s'.users = 0 ∨ s'.phase = .running := by
  have hspec := step_spec hs
  cases e with
  | enter =>
    obtain rfl : s' = { s with users := s.users + 1 } := hspec
    exact .inr (he rfl)
  | share =>
    obtain ⟨hpos, rfl⟩ := hspec
    exact .inr (h.resolve_left (by omega))
  | leave =>
    obtain ⟨-, rfl⟩ := hspec
    exact h.imp_left fun hzero => by simp [hzero]
  | start =>
    obtain ⟨hp, rfl⟩ := hspec
    rw [goOn_users]
    exact .inl (h.resolve_right (by simp [hp]))
  | take ret =>
    obtain ⟨done, stage, r, todo, refused, rest, hp, rfl⟩ := hspec
    have husers : s.users = 0 := h.resolve_right (by simp [hp])
    split <;> exact .inl husers
  | test =>
    obtain ⟨done, stage, refused, rest, hp, rfl⟩ := hspec
    rw [judge_users]
    exact .inl (h.resolve_right (by simp [hp]))
  | giveBack =>
    obtain ⟨r, code, ⟨hp, rfl⟩ | ⟨hp, rfl⟩⟩ := hspec <;>
      exact .inl ((giveBack_users ..).trans (h.resolve_right (by simp [hp])))
  | finish =>
    obtain ⟨hp | hp, rfl⟩ := hspec <;> exact .inl (h.resolve_right (by simp [hp]))
  | stop =>
    obtain ⟨-, husers, rfl⟩ := hspec
    exact .inl husers

/-- **In use**: where users come when the start is over, they find everything in
its place as long as they are there. -/
theorem in_use {es : List Event} (hs : (machine setup).Reaches es s)
    (hpolite : (machine setup).Along Polite (machine setup).init es) (husers : 0 < s.users) :
    s.phase = .running ∧ Holds setup.init.stages s.held := by
  have hrun : s.users = 0 ∨ s.phase = .running :=
    Machine.exec_inv (M := machine setup) (I := fun s => s.users = 0 ∨ s.phase = .running)
      (fun _ _ _ h he hstep => users_step h he hstep) (.inl rfl) hpolite hs
  have hphase : s.phase = .running := hrun.resolve_left (by omega)
  have hinv := (inv_of_reachable ⟨es, hs⟩).phase
  rw [hphase] at hinv
  exact ⟨hphase, hinv.2.2⟩

/-- **The ledger**: nothing is taken twice or given back without being there, and
an absent component has nothing. -/
theorem replay_of_absent (h : (machine setup).Reachable s) (hphase : s.phase = .absent) :
    Receipt.replay [] s.log = some [] := by
  have hinv := inv_of_reachable h
  obtain ⟨l, hlog, hperm⟩ := hinv.ledger
  have htaken := hinv.phase
  rw [hphase] at htaken
  rw [htaken] at hperm
  rw [hlog, hperm.eq_nil]

end

end Lifecycle

end KernelSpace.Lib
