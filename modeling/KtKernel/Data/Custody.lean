import KtKernel.Data.Machine
import Mathlib.Data.List.Nodup

namespace KtKernel.Data

/-! Failures handed from place to place until one of them is reported.

A place holds one token at most.  A failure is filed under a token: its own, or
the one that stood in the way.  A token moves to an empty place, gives way to
the token of another place, or is reported.
-/

structure Custody (P T : Type) where
  held : P → Option T
  failed : List T
  filed : T → Option T
  reported : List T

namespace Custody

inductive Move (P T : Type) where
  | fail (task : T)
  | issue (place : P) (task : T)
  | join (place : P) (task : T)
  | pass (source target : P)
  | merge (source target : P)
  | report (source : P)

variable {P T : Type} [DecidableEq P] [DecidableEq T]

/-- The newest failure is filed under itself and its token put in a place. -/
def issue (custody : Custody P T) (place : P) (task : T) : Custody P T :=
  { custody with
    held := Function.update custody.held place (some task)
    filed := Function.update custody.filed task (some task) }

/-- The newest failure is filed under a token that is there already. -/
def join (custody : Custody P T) (task kept : T) : Custody P T :=
  { custody with filed := Function.update custody.filed task (some kept) }

def pass (custody : Custody P T) (source target : P) : Custody P T :=
  { custody with
    held := Function.update (Function.update custody.held source none) target (custody.held source) }

/-- What was filed under the token that goes is filed under the one kept. -/
def merge (custody : Custody P T) (source : P) (gone kept : T) : Custody P T :=
  { custody with
    held := Function.update custody.held source none
    filed := fun task => if custody.filed task = some gone then some kept else custody.filed task }

def step (custody : Custody P T) : Move P T → Option (Custody P T)
  | .fail task =>
      if task ∈ custody.failed then none else some { custody with failed := custody.failed ++ [task] }
  | .issue place task =>
      if custody.failed.getLast? = some task ∧ custody.filed task = none ∧
          custody.held place = none then
        some (custody.issue place task)
      else none
  | .join place task =>
      match custody.held place with
      | some kept =>
          if custody.failed.getLast? = some task ∧ custody.filed task = none then
            some (custody.join task kept)
          else none
      | none => none
  | .pass source target =>
      if custody.held source ≠ none ∧ custody.held target = none then some (custody.pass source target)
      else none
  | .merge source target =>
      match custody.held source, custody.held target with
      | some gone, some kept => if source = target then none else some (custody.merge source gone kept)
      | _, _ => none
  | .report source =>
      match custody.held source with
      | some token =>
          some { custody with
            held := Function.update custody.held source none
            reported := custody.reported ++ [token] }
      | none => none

def machine : Machine (Custody P T) (Move P T) where
  initial custody := custody = ⟨fun _ => none, [], fun _ => none, []⟩
  step := step

/-- A token is in one place, or reported once, and no failure is forgotten. -/
structure Sound (custody : Custody P T) : Prop where
  distinct : custody.failed.Nodup
  unique : ∀ left right token, custody.held left = some token → custody.held right = some token →
    left = right
  unreported : ∀ place token, custody.held place = some token → token ∉ custody.reported
  once : custody.reported.Nodup
  issued : ∀ token, (token ∈ custody.reported ∨ ∃ place, custody.held place = some token) →
    custody.filed token ≠ none
  known : ∀ task token, custody.filed task = some token →
    task ∈ custody.failed ∧ token ∈ custody.failed
  kept : ∀ task token, custody.filed task = some token →
    token ∈ custody.reported ∨ ∃ place, custody.held place = some token

variable {custody after : Custody P T} {place source target : P} {task token gone keeps : T}

omit [DecidableEq P] [DecidableEq T] in
theorem Sound.token_ne (sound : custody.Sound) (unfiled : custody.filed task = none)
    (found : custody.filed other = some token) : token ≠ task := by
  intro same
  subst token
  exact sound.issued task (sound.kept other task found) unfiled

theorem held_issue_iff (empty : custody.held place = none) :
    (custody.issue place task).held other = some token ↔
      other = place ∧ token = task ∨ custody.held other = some token := by
  unfold issue
  by_cases same : other = place
  · subst other
    simp [empty, eq_comm]
  · simp [same]

omit [DecidableEq P] in
/-- The failures are filed as before, but for the newest. -/
theorem filed_update_iff (unfiled : custody.filed task = none) :
    Function.update custody.filed task (some under) other = some token ↔
      other = task ∧ token = under ∨ custody.filed other = some token := by
  by_cases own : other = task
  · subst other
    simp [unfiled, eq_comm]
  · simp [own]

omit [DecidableEq P] in
theorem filed_update_ne_none (filed : other = task ∨ custody.filed other ≠ none) :
    Function.update custody.filed task (some under) other ≠ none := by
  by_cases own : other = task
  · subst other
    simp
  · rw [Function.update_of_ne own]
    exact filed.resolve_left own

theorem Sound.issue (sound : custody.Sound) (newest : custody.failed.getLast? = some task)
    (unfiled : custody.filed task = none) (empty : custody.held place = none) :
    (custody.issue place task).Sound := by
  have member := List.mem_of_getLast? newest
  have absent : ∀ other, custody.held other ≠ some task := by
    intro other held
    exact sound.issued task (.inr ⟨other, held⟩) unfiled
  refine
    { distinct := sound.distinct, unique := ?_, unreported := ?_, once := sound.once, issued := ?_
      known := ?_, kept := ?_ }
  · intro left right token first second
    rcases (held_issue_iff empty).mp first with ⟨atLeft, own⟩ | first <;>
      rcases (held_issue_iff empty).mp second with ⟨atRight, own'⟩ | second
    · rw [atLeft, atRight]
    · exact absurd (own ▸ second) (absent right)
    · exact absurd (own' ▸ first) (absent left)
    · exact sound.unique left right token first second
  · intro other token held
    rcases (held_issue_iff empty).mp held with ⟨_, own⟩ | held
    · rw [own]
      exact fun reported => sound.issued task (.inl reported) unfiled
    · exact sound.unreported other token held
  · intro token present
    apply filed_update_ne_none
    rcases present with reported | ⟨other, held⟩
    · exact .inr (sound.issued token (.inl reported))
    · rcases (held_issue_iff empty).mp held with ⟨_, own⟩ | held
      · exact .inl own
      · exact .inr (sound.issued token (.inr ⟨other, held⟩))
  · intro other token filed
    rcases (filed_update_iff unfiled).mp filed with ⟨own, same⟩ | filed
    · rw [own, same]
      exact ⟨member, member⟩
    · exact sound.known other token filed
  · intro other token filed
    rcases (filed_update_iff unfiled).mp filed with ⟨_, same⟩ | filed
    · exact .inr ⟨place, (held_issue_iff empty).mpr (.inl ⟨rfl, same⟩)⟩
    · rcases sound.kept other token filed with reported | ⟨spot, held⟩
      · exact .inl reported
      · exact .inr ⟨spot, (held_issue_iff empty).mpr (.inr held)⟩

omit [DecidableEq P] [DecidableEq T] in
/-- A token in a place is a failure itself. -/
theorem Sound.token_failed (sound : custody.Sound) (held : custody.held place = some token) :
    token ∈ custody.failed := by
  obtain ⟨under, filed⟩ := Option.ne_none_iff_exists'.mp (sound.issued token (.inr ⟨place, held⟩))
  exact (sound.known token under filed).1

omit [DecidableEq P] in
theorem Sound.join (sound : custody.Sound) (newest : custody.failed.getLast? = some task)
    (unfiled : custody.filed task = none) (full : custody.held place = some keeps) :
    (custody.join task keeps).Sound := by
  refine
    { distinct := sound.distinct, unique := sound.unique, unreported := sound.unreported
      once := sound.once, issued := ?_, known := ?_, kept := ?_ }
  · intro token present
    exact filed_update_ne_none (.inr (sound.issued token present))
  · intro other token filed
    rcases (filed_update_iff unfiled).mp filed with ⟨own, same⟩ | filed
    · rw [own, same]
      exact ⟨List.mem_of_getLast? newest, sound.token_failed full⟩
    · exact sound.known other token filed
  · intro other token filed
    rcases (filed_update_iff unfiled).mp filed with ⟨_, same⟩ | filed
    · exact .inr ⟨place, same ▸ full⟩
    · exact sound.kept other token filed

omit [DecidableEq T] in
/-- After a token has left a place the other places are as before. -/
theorem held_of_emptied (held : Function.update custody.held source none other = some token) :
    other ≠ source ∧ custody.held other = some token := by
  by_cases same : other = source
  · subst other
    rw [Function.update_self] at held
    contradiction
  · rw [Function.update_of_ne same] at held
    exact ⟨same, held⟩

omit [DecidableEq T] in
/-- Where the tokens are after one has moved. -/
theorem held_pass_iff (full : custody.held source = some gone) (empty : custody.held target = none) :
    (custody.pass source target).held place = some token ↔
      place = target ∧ token = gone ∨ place ≠ source ∧ custody.held place = some token := by
  have distinct : target ≠ source := by
    intro same
    rw [same, full] at empty
    contradiction
  unfold pass
  by_cases atTarget : place = target
  · subst place
    simp [full, empty, eq_comm]
  · by_cases atSource : place = source
    · subst place
      simp [atTarget]
    · simp [atTarget, atSource]

omit [DecidableEq T] in
theorem Sound.pass (sound : custody.Sound) (full : custody.held source = some gone)
    (empty : custody.held target = none) : (custody.pass source target).Sound := by
  have own : ∀ place, custody.held place = some gone → place = source := fun place held =>
    sound.unique place source gone held full
  refine
    { distinct := sound.distinct, unique := ?_, unreported := ?_, once := sound.once, issued := ?_
      known := sound.known, kept := ?_ }
  · intro left right token first second
    rcases (held_pass_iff full empty).mp first with ⟨atLeft, same⟩ | ⟨apart, first⟩ <;>
      rcases (held_pass_iff full empty).mp second with ⟨atRight, same'⟩ | ⟨apart', second⟩
    · rw [atLeft, atRight]
    · exact absurd (own right (same ▸ second)) apart'
    · exact absurd (own left (same' ▸ first)) apart
    · exact sound.unique left right token first second
  · intro place token held
    rcases (held_pass_iff full empty).mp held with ⟨_, same⟩ | ⟨_, held⟩
    · rw [same]
      exact sound.unreported source gone full
    · exact sound.unreported place token held
  · intro token present
    apply sound.issued token
    rcases present with reported | ⟨place, held⟩
    · exact .inl reported
    · rcases (held_pass_iff full empty).mp held with ⟨_, same⟩ | ⟨_, held⟩
      · exact .inr ⟨source, same ▸ full⟩
      · exact .inr ⟨place, held⟩
  · intro task token filed
    rcases sound.kept task token filed with reported | ⟨place, held⟩
    · exact .inl reported
    · right
      by_cases atSource : place = source
      · rw [atSource, full, Option.some.injEq] at held
        exact ⟨target, (held_pass_iff full empty).mpr (.inl ⟨rfl, held.symm⟩)⟩
      · exact ⟨place, (held_pass_iff full empty).mpr (.inr ⟨atSource, held⟩)⟩

theorem filed_merge (found : (custody.merge source gone keeps).filed task = some token) :
    custody.filed task = some gone ∧ token = keeps ∨ custody.filed task = some token ∧ token ≠ gone := by
  simp only [merge] at found
  split at found
  · exact .inl ⟨‹_›, (Option.some.inj found).symm⟩
  · refine .inr ⟨found, ?_⟩
    intro same
    rw [same] at found
    contradiction

theorem Sound.merge (sound : custody.Sound) (full : custody.held source = some gone)
    (other : custody.held target = some keeps) (apart : source ≠ target) :
    (custody.merge source gone keeps).Sound := by
  have keepsFiled := sound.issued keeps (.inr ⟨target, other⟩)
  obtain ⟨under, keepsUnder⟩ := Option.ne_none_iff_exists'.mp keepsFiled
  have still : (custody.merge source gone keeps).held target = some keeps := by
    simp only [Custody.merge]
    rw [Function.update_of_ne (Ne.symm apart)]
    exact other
  refine
    { distinct := sound.distinct, unique := ?_, unreported := ?_, once := sound.once, issued := ?_
      known := ?_, kept := ?_ }
  · intro left right token first second
    exact sound.unique left right token (held_of_emptied first).2 (held_of_emptied second).2
  · intro place token held
    exact sound.unreported place token (held_of_emptied held).2
  · intro token present
    have filed : custody.filed token ≠ none := by
      apply sound.issued token
      rcases present with reported | ⟨place, held⟩
      · exact .inl reported
      · exact .inr ⟨place, (held_of_emptied held).2⟩
    simp only [Custody.merge]
    split
    · nofun
    · exact filed
  · intro task token filed
    rcases filed_merge filed with ⟨filed, same⟩ | ⟨filed, _⟩
    · exact ⟨(sound.known task gone filed).1, same ▸ (sound.known keeps under keepsUnder).1⟩
    · exact sound.known task token filed
  · intro task token filed
    rcases filed_merge filed with ⟨_, same⟩ | ⟨filed, different⟩
    · exact .inr ⟨target, same ▸ still⟩
    · rcases sound.kept task token filed with reported | ⟨place, held⟩
      · exact .inl reported
      · right
        have elsewhere : place ≠ source := by
          intro same
          rw [same, full, Option.some.injEq] at held
          exact different held.symm
        refine ⟨place, ?_⟩
        simp only [Custody.merge]
        rw [Function.update_of_ne elsewhere]
        exact held

omit [DecidableEq T] in
theorem Sound.report (sound : custody.Sound) (full : custody.held source = some token) :
    Sound { custody with
      held := Function.update custody.held source none
      reported := custody.reported ++ [token] } := by
  refine
    { distinct := sound.distinct, unique := ?_, unreported := ?_, once := ?_, issued := ?_
      known := sound.known, kept := ?_ }
  · intro left right other first second
    exact sound.unique left right other (held_of_emptied first).2 (held_of_emptied second).2
  · intro place other held
    obtain ⟨apart, held⟩ := held_of_emptied held
    intro reported
    rcases List.mem_append.mp reported with old | new
    · exact sound.unreported place other held old
    · rw [List.mem_singleton.mp new] at held
      exact apart (sound.unique place source token held full)
  · exact List.nodup_append.mpr ⟨sound.once, List.nodup_singleton token, by
      intro old member new fresh same
      rw [same, List.mem_singleton.mp fresh] at member
      exact sound.unreported source token full member⟩
  · intro other present
    apply sound.issued other
    rcases present with reported | ⟨place, held⟩
    · rcases List.mem_append.mp reported with old | new
      · exact .inl old
      · exact .inr ⟨source, (List.mem_singleton.mp new).symm ▸ full⟩
    · exact .inr ⟨place, (held_of_emptied held).2⟩
  · intro task other filed
    rcases sound.kept task other filed with reported | ⟨place, held⟩
    · exact .inl (List.mem_append_left _ reported)
    · by_cases same : place = source
      · rw [same, full, Option.some.injEq] at held
        exact .inl (List.mem_append_right _ (List.mem_singleton.mpr held.symm))
      · refine .inr ⟨place, ?_⟩
        change Function.update custody.held source none place = some other
        rw [Function.update_of_ne same]
        exact held

omit [DecidableEq P] [DecidableEq T] in
theorem Sound.fail (sound : custody.Sound) (fresh : task ∉ custody.failed) :
    Sound { custody with failed := custody.failed ++ [task] } :=
  { sound with
    distinct := List.nodup_append.mpr ⟨sound.distinct, List.nodup_singleton task, by
      intro old member new single same
      rw [same, List.mem_singleton.mp single] at member
      exact fresh member⟩
    known := fun other token filed =>
      ⟨List.mem_append_left _ (sound.known other token filed).1,
        List.mem_append_left _ (sound.known other token filed).2⟩ }

/-- What a move needs and what it does. -/
inductive Moved (custody : Custody P T) : Move P T → Custody P T → Prop
  | fail {task : T} (fresh : task ∉ custody.failed) :
      Moved custody (.fail task) { custody with failed := custody.failed ++ [task] }
  | issue {place : P} {task : T} (newest : custody.failed.getLast? = some task)
      (unfiled : custody.filed task = none) (empty : custody.held place = none) :
      Moved custody (.issue place task) (custody.issue place task)
  | join {place : P} {task keeps : T} (newest : custody.failed.getLast? = some task)
      (unfiled : custody.filed task = none) (full : custody.held place = some keeps) :
      Moved custody (.join place task) (custody.join task keeps)
  | pass {source target : P} {gone : T} (full : custody.held source = some gone)
      (empty : custody.held target = none) :
      Moved custody (.pass source target) (custody.pass source target)
  | merge {source target : P} {gone keeps : T} (full : custody.held source = some gone)
      (other : custody.held target = some keeps) (apart : source ≠ target) :
      Moved custody (.merge source target) (custody.merge source gone keeps)
  | report {source : P} {token : T} (full : custody.held source = some token) :
      Moved custody (.report source)
        { custody with
          held := Function.update custody.held source none
          reported := custody.reported ++ [token] }

theorem moved_of_step {move : Move P T} (moved : custody.step move = some after) :
    Moved custody move after := by
  cases move with
  | fail task =>
      simp only [step] at moved
      split at moved
      · contradiction
      · obtain rfl := Option.some.inj moved
        exact .fail ‹_›
  | issue place task =>
      simp only [step] at moved
      split at moved
      · rename_i ready
        obtain rfl := Option.some.inj moved
        exact .issue ready.1 ready.2.1 ready.2.2
      · contradiction
  | join place task =>
      simp only [step] at moved
      split at moved
      · rename_i keeps full
        split at moved
        · rename_i ready
          obtain rfl := Option.some.inj moved
          exact .join ready.1 ready.2 full
        · contradiction
      · contradiction
  | pass source target =>
      simp only [step] at moved
      split at moved
      · rename_i ready
        obtain rfl := Option.some.inj moved
        obtain ⟨gone, full⟩ := Option.ne_none_iff_exists'.mp ready.1
        exact .pass full ready.2
      · contradiction
  | merge source target =>
      simp only [step] at moved
      split at moved
      · rename_i gone keeps full other
        split at moved
        · contradiction
        · rename_i apart
          obtain rfl := Option.some.inj moved
          exact .merge full other apart
      · contradiction
  | report source =>
      simp only [step] at moved
      split at moved
      · rename_i token full
        obtain rfl := Option.some.inj moved
        exact .report full
      · contradiction

theorem Sound.step {move : Move P T} (sound : custody.Sound) (moved : custody.step move = some after) :
    after.Sound := by
  cases moved_of_step moved with
  | fail fresh => exact sound.fail fresh
  | issue newest unfiled empty => exact sound.issue newest unfiled empty
  | join newest unfiled full => exact sound.join newest unfiled full
  | pass full empty => exact sound.pass full empty
  | merge full other apart => exact sound.merge full other apart
  | report full => exact sound.report full

theorem reachable_sound (reached : (machine (P := P) (T := T)).Reachable custody) : custody.Sound := by
  refine reached.invariant ?_ fun _ _ _ sound moved => sound.step moved
  intro custody starts
  rw [show custody = _ from starts]
  exact
    { distinct := List.nodup_nil
      unique := by nofun
      unreported := by nofun
      once := List.nodup_nil
      issued := by
        rintro token (reported | ⟨_, held⟩)
        · contradiction
        · contradiction
      known := by nofun
      kept := by nofun }

/-- A failure is filed under one that did not come later. -/
def Ordered (custody : Custody P T) : Prop :=
  ∀ task token, custody.filed task = some token →
    custody.failed.idxOf token ≤ custody.failed.idxOf task

/-- The token that stays is not the younger one. -/
def Move.Timely (custody : Custody P T) : Move P T → Prop
  | .merge source target => ∀ gone keeps, custody.held source = some gone →
      custody.held target = some keeps → custody.failed.idxOf keeps ≤ custody.failed.idxOf gone
  | _ => True

theorem idxOf_le_newest {tasks : List T} (distinct : tasks.Nodup)
    (newest : tasks.getLast? = some task) (member : token ∈ tasks) :
    tasks.idxOf token ≤ tasks.idxOf task := by
  obtain ⟨earlier, rfl⟩ := List.getLast?_eq_some_iff.mp newest
  have fresh : task ∉ earlier := by
    intro old
    exact (List.nodup_append.mp distinct).2.2 task old task (List.mem_singleton_self task) rfl
  have last : (earlier ++ [task]).idxOf task = earlier.length := by
    rw [List.idxOf_append_of_notMem fresh]
    simp
  have bound := List.idxOf_lt_length_of_mem member
  rw [List.length_append, List.length_singleton] at bound
  omega

theorem Ordered.step {move : Move P T} (sound : custody.Sound) (ordered : custody.Ordered)
    (moved : custody.step move = some after) (timely : move.Timely custody) : after.Ordered := by
  cases moved_of_step moved with
  | fail fresh =>
      intro task token filed
      obtain ⟨taskKnown, tokenKnown⟩ := sound.known task token filed
      change (custody.failed ++ _).idxOf token ≤ (custody.failed ++ _).idxOf task
      rw [List.idxOf_append_of_mem tokenKnown, List.idxOf_append_of_mem taskKnown]
      exact ordered task token filed
  | issue newest unfiled empty =>
      intro other token filed
      rcases (filed_update_iff unfiled).mp filed with ⟨own, same⟩ | filed
      · exact Nat.le_of_eq (by rw [own, same])
      · exact ordered other token filed
  | join newest unfiled full =>
      intro other token filed
      rcases (filed_update_iff unfiled).mp filed with ⟨own, same⟩ | filed
      · rw [own, same]
        exact idxOf_le_newest sound.distinct newest (sound.token_failed full)
      · exact ordered other token filed
  | pass full empty => exact ordered
  | merge full other apart =>
      intro task token filed
      rcases filed_merge filed with ⟨filed, same⟩ | ⟨filed, _⟩
      · rw [same]
        exact Nat.le_trans (timely _ _ full other) (ordered task _ filed)
      · exact ordered task token filed
  | report full => exact ordered

/-- The failures among the tasks are filed under tokens that are elsewhere. -/
def Away (custody : Custody P T) (place : P) (tasks : List T) : Prop :=
  ∀ task ∈ tasks, task ∈ custody.failed →
    ∃ token, custody.filed task = some token ∧ custody.held place ≠ some token

/-- The move brings no token from another place and no failure of the tasks. -/
def Move.Apart (place : P) (tasks : List T) : Move P T → Prop
  | .fail task => task ∉ tasks
  | .pass _ target | .merge _ target => target ≠ place
  | _ => True

theorem Away.step {move : Move P T} (sound : custody.Sound) (away : custody.Away place tasks)
    (moved : custody.step move = some after) (apart : move.Apart place tasks) :
    after.Away place tasks := by
  intro task member failed
  cases moved_of_step moved with
  | fail fresh =>
      rcases List.mem_append.mp failed with old | new
      · exact away task member old
      · rw [List.mem_singleton.mp new] at member
        exact absurd member apart
  | issue newest unfiled empty =>
      obtain ⟨token, filed, elsewhere⟩ := away task member failed
      refine ⟨token, (filed_update_iff unfiled).mpr (.inr filed), ?_⟩
      intro held
      rcases (held_issue_iff empty).mp held with ⟨_, same⟩ | held
      · exact sound.token_ne unfiled filed same
      · exact elsewhere held
  | join newest unfiled full =>
      obtain ⟨token, filed, elsewhere⟩ := away task member failed
      exact ⟨token, (filed_update_iff unfiled).mpr (.inr filed), elsewhere⟩
  | pass full empty =>
      obtain ⟨token, filed, elsewhere⟩ := away task member failed
      refine ⟨token, filed, ?_⟩
      intro held
      rcases (held_pass_iff full empty).mp held with ⟨here, _⟩ | ⟨_, held⟩
      · exact apart here.symm
      · exact elsewhere held
  | @merge source target gone keeps full other different =>
      obtain ⟨token, filed, elsewhere⟩ := away task member failed
      by_cases goes : token = gone
      · refine ⟨keeps, by simp [Custody.merge, filed, goes], ?_⟩
        intro held
        exact apart (sound.unique target place keeps other (held_of_emptied held).2)
      · refine ⟨token, by simp [Custody.merge, filed, goes], ?_⟩
        intro held
        exact elsewhere (held_of_emptied held).2
  | report full =>
      obtain ⟨token, filed, elsewhere⟩ := away task member failed
      exact ⟨token, filed, fun held => elsewhere (held_of_emptied held).2⟩

/-- Failures that are in no place any more have been reported. -/
theorem Sound.reported_iff (sound : custody.Sound) (away : custody.Away place tasks)
    (ordered : custody.Ordered) :
    (∀ task ∈ tasks, task ∈ custody.failed → ∃ token ∈ custody.reported,
        custody.filed task = some token ∧ custody.failed.idxOf token ≤ custody.failed.idxOf task) ↔
      ∀ spot ≠ place, ∀ task ∈ tasks, ∀ token, custody.filed task = some token →
        custody.held spot ≠ some token := by
  constructor
  · intro all spot _ task member token filed held
    obtain ⟨under, reported, filed', _⟩ := all task member (sound.known task token filed).1
    rw [filed, Option.some.injEq] at filed'
    rw [← filed'] at reported
    exact sound.unreported spot token held reported
  · intro none task member failed
    obtain ⟨token, filed, elsewhere⟩ := away task member failed
    refine ⟨token, ?_, filed, ordered task token filed⟩
    rcases sound.kept task token filed with reported | ⟨spot, held⟩
    · exact reported
    · by_cases here : spot = place
      · exact absurd (here ▸ held) elsewhere
      · exact absurd held (none spot here task member token filed)

end Custody

end KtKernel.Data
