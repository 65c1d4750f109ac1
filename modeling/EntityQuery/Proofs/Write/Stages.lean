import EntityQuery.Proofs.Write.Arrivals
import EntityQuery.Proofs.Write.Commits
import Mathlib.Data.List.Induction

/-! # What the steps of a write do

A write can be given any list of steps. An entity gets through all of them if the steps fit
together, each expecting it just as far as the one before has brought it, and if the store and the
index answer when they are called. Otherwise it gets as far as the first step of which this does not
hold; what the steps before that one have done stays, and the step itself does nothing.

* `Progress.Fits`, `Stage.Served`: steps that fit together, and a step whose call is answered.
* `Stage.Fails`: why a step fails.
* `Stage.effect`: what a step does to the database.
* `Database.Leaves`: what steps leave behind, as far as the database can be asked for it, and
  `Database.leaves_after`: it is what their effects come to.
* `Database.applyStage_cases`, `Database.runPipeline_cases`: one step and many.
* `Database.runPipeline_exact`: what becomes of an entity that is taken through steps. -/

namespace EntityQuery

/-! ## Steps that fit together -/

/-- How far an entity has come after a step. -/
def Stage.yields : Stage → Progress
  | assignVersion => .versioned
  | commitEntity | indexEntity => .committed

namespace Progress

/-- How far an entity has come after steps. -/
def after (p : Progress) (stages : List Stage) : Progress :=
  stages.foldl (fun _ stage => stage.yields) p

/-- **Steps fit together**: each expects an entity just as far as the one before has brought it. -/
def Fits : Progress → List Stage → Prop
  | _, [] => True
  | p, stage :: rest => stage.expects = p ∧ Fits stage.yields rest

instance Fits.decidable : (p : Progress) → (stages : List Stage) → Decidable (Fits p stages)
  | _, [] => inferInstanceAs (Decidable True)
  | p, stage :: rest =>
    have := Fits.decidable stage.yields rest
    inferInstanceAs (Decidable (stage.expects = p ∧ Fits stage.yields rest))

variable {p : Progress} {stage : Stage} {before rest : List Stage}

theorem fits_append_cons :
    p.Fits (before ++ stage :: rest) ↔
      p.Fits before ∧ stage.expects = p.after before ∧ stage.yields.Fits rest := by
  induction before generalizing p with
  | nil => simp [Fits, after]
  | cons first before ih =>
    rw [List.cons_append, Fits, ih, Fits, and_assoc]
    rfl

end Progress

/-! ## Entities on their way -/

namespace Draft

def id : Draft → EntityId
  | raw id _ | versioned id _ _ | committed id _ _ => id

/-- **What an entity is written as** by steps: under the version that it has, or that it draws in
the first of them. -/
def writtenAs (draft : Draft) (clock : VersionClock) (steps : List (Stage × Version)) :
    RecordWrite where
  id := draft.id
  version := draft.version?.getD (steps.head?.elim 0 fun (_, reading) => (clock.next reading).1)
  body := draft.body

end Draft

namespace RecordWrite

/-- What is written, when it has come so far. -/
def draft (w : RecordWrite) : Progress → Draft
  | .raw => .raw w.id w.body
  | .versioned => .versioned w.id w.version w.body
  | .committed => .committed w.id w.version w.body

variable {w : RecordWrite} {p : Progress}

@[simp]
theorem progress_draft : (w.draft p).progress = p := by cases p <;> rfl

@[simp]
theorem body_draft : (w.draft p).body = w.body := by cases p <;> rfl

theorem writtenAs_draft (hp : p ≠ .raw) (clock : VersionClock) (steps : List (Stage × Version)) :
    (w.draft p).writtenAs clock steps = w := by
  cases p with
  | raw => exact absurd rfl hp
  | versioned => rfl
  | committed => rfl

theorem draft_writtenAs (draft : Draft) (clock : VersionClock) (steps : List (Stage × Version)) :
    (draft.writtenAs clock steps).draft draft.progress = draft := by cases draft <;> rfl

end RecordWrite

/-! ## One step -/

namespace Stage

/-- **The call that a step makes is answered**: the store or the index can be reached, whichever it
is. For a deletion there is no call to the index. -/
def Served (db : Database) (body : RecordBody) : Stage → Prop
  | assignVersion => True
  | commitEntity => db.store.unavailable = false
  | indexEntity => body.isTombstone = true ∨ db.index.unavailable = false

/-- **Why a step fails** for an entity that has come so far. -/
inductive Fails (db : Database) (body : RecordBody) (p : Progress) : Stage → RequestError → Prop
  | mismatch {stage : Stage} (h : stage.expects ≠ p) :
    Fails db body p stage (.stageMismatch stage stage.expects p)
  | store (hp : p = .versioned) (h : db.store.unavailable = true) :
    Fails db body p commitEntity EntityStore.outage
  | index (hp : p = .committed) (hbody : body.isTombstone = false)
    (h : db.index.unavailable = true) : Fails db body p indexEntity SearchIndex.outage

/-- **What a step does to a database**: it draws the version, or writes the record, or puts the
fields into the index. -/
def effect (scope : Scope) (w : RecordWrite) : Stage → Database → Database
  | assignVersion, db => { db with clock := ⟨w.version⟩ }
  | commitEntity, db => { db with store := db.store.written w }
  | indexEntity, db => { db with index := db.index.holding scope w.id w.version w.body }

variable {db db' : Database} {body : RecordBody} {p : Progress} {stage : Stage} {scope : Scope}
  {w : RecordWrite} {e : RequestError}

theorem yields_ne_raw (stage : Stage) : stage.yields ≠ .raw := by cases stage <;> decide

theorem Fails.not_served (h : stage.Fails db body p e) (hfits : stage.expects = p) :
    ¬ stage.Served db body := by
  cases h with
  | mismatch hp => exact absurd hfits hp
  | store hp h => simp [Served, h]
  | index hp hbody h => simp [Served, h, hbody]

/-- Two databases whose parts can be reached alike. -/
structure SameReach (db db' : Database) : Prop where
  store : db'.store.unavailable = db.store.unavailable
  index : db'.index.unavailable = db.index.unavailable

theorem SameReach.served_iff (h : SameReach db db') :
    stage.Served db' body ↔ stage.Served db body := by
  cases stage <;> simp only [Served, h.store, h.index]

theorem SameReach.fails (h : SameReach db db') (hfails : stage.Fails db' body p e) :
    stage.Fails db body p e := by
  cases hfails with
  | mismatch hp => exact .mismatch hp
  | store hp hdown => exact .store hp (h.store ▸ hdown)
  | index hp hbody hdown => exact .index hp hbody (h.index ▸ hdown)

theorem sameReach_effect (stage : Stage) : SameReach db (stage.effect scope w db) := by
  cases stage with
  | assignVersion => exact ⟨rfl, rfl⟩
  | commitEntity => exact ⟨db.store.unavailable_written w, rfl⟩
  | indexEntity =>
    refine ⟨rfl, ?_⟩
    unfold effect SearchIndex.holding
    cases w.body <;> rfl

end Stage

namespace Database

variable {db : Database} {scope : Scope} {draft : Draft} {stage : Stage} {reading : Version}
  {steps : List (Stage × Version)}

theorem applyStage_of_ne (h : stage.expects ≠ draft.progress) :
    db.applyStage scope reading stage draft =
      .error (.stageMismatch stage stage.expects draft.progress) := by
  cases stage <;> cases draft <;> first | rfl | exact absurd rfl h

/-- **What becomes of one step**: it fails for a reason, or it fits, is served and takes effect. -/
theorem applyStage_cases (db : Database) (scope : Scope) (stage : Stage) (reading : Version)
    (rest : List (Stage × Version)) (draft : Draft) :
    let w := draft.writtenAs db.clock ((stage, reading) :: rest)
    (∃ e, stage.Fails db draft.body draft.progress e ∧
      db.applyStage scope reading stage draft = .error e) ∨
      (stage.expects = draft.progress ∧ stage.Served db draft.body ∧
        db.applyStage scope reading stage draft =
          .ok (w.draft stage.yields, stage.effect scope w db)) := by
  intro w
  by_cases hfits : stage.expects = draft.progress
  · cases stage with
    | assignVersion =>
      cases draft with
      | raw id body => exact .inr ⟨rfl, trivial, rfl⟩
      | versioned | committed => cases hfits
    | commitEntity =>
      cases draft with
      | versioned id version body =>
        have hstep : db.applyStage scope reading .commitEntity (.versioned id version body) =
            (db.store.write w.id w.version w.body).map fun store =>
              (w.draft .committed, { db with store }) := rfl
        rcases db.store.write_cases w with ⟨hdown, hwrite⟩ | ⟨hup, store, hwrite, -⟩
        · exact .inl ⟨_, .store rfl hdown, by rw [hstep, hwrite]; rfl⟩
        · have hwritten : db.store.written w = store := by rw [EntityStore.written, hwrite]
          exact .inr ⟨rfl, hup, by rw [hstep, hwrite, Stage.effect, hwritten]; rfl⟩
      | raw | committed => cases hfits
    | indexEntity =>
      cases draft with
      | committed id version body =>
        cases body with
        | tombstone => exact .inr ⟨rfl, .inl rfl, rfl⟩
        | payload doc =>
          have hstep : db.applyStage scope reading .indexEntity
              (.committed id version (.payload doc)) =
                (db.index.index scope id version doc).map fun index =>
                  (w.draft .committed, { db with index }) := rfl
          by_cases hdown : db.index.unavailable = true
          · exact .inl ⟨_, .index rfl rfl hdown, by
              rw [hstep, SearchIndex.index, if_pos hdown]; rfl⟩
          · exact .inr ⟨rfl, .inr (Bool.eq_false_iff.mpr hdown), by
              rw [hstep, SearchIndex.index, if_neg hdown]; rfl⟩
      | raw | versioned => cases hfits
  · exact .inl ⟨_, .mismatch hfits, applyStage_of_ne hfits⟩

/-! ## Many steps -/

/-- The database after steps that have taken effect. -/
def after (db : Database) (scope : Scope) (w : RecordWrite) (stages : List Stage) : Database :=
  stages.foldl (fun db stage => stage.effect scope w db) db

/-- **What steps leave behind**: the version that was drawn is the last one, the store holds the
later of what is written and what it held of the entity, the index has the fields under the version,
and all else is as it was. -/
structure Leaves (db : Database) (scope : Scope) (w : RecordWrite) (stages : List Stage)
    (db' : Database) : Prop where
  clock : db'.clock = if .assignVersion ∈ stages then (⟨w.version⟩ : VersionClock) else db.clock
  store : db'.store = { db.store with records := db'.store.records }
  held : ∀ id, db'.store.get? id = if .commitEntity ∈ stages ∧ w.id = id then
    some ((db.store.get? id).elim w.record fun held => held.overtakenBy w.record)
    else db.store.get? id
  index : db'.index = { db.index with rows := db'.index.rows }
  indexed : ∀ key : RowKey, db'.index.rows[key]? =
    if .indexEntity ∈ stages ∧ key = ⟨scope, w.id, w.version⟩ then
      w.body.payload? <|> db.index.rows[key]? else db.index.rows[key]?

theorem sameReach_after {w : RecordWrite} (stages : List Stage) :
    Stage.SameReach db (db.after scope w stages) := by
  induction stages generalizing db with
  | nil => exact ⟨rfl, rfl⟩
  | cons stage stages ih =>
    have hstep : Stage.SameReach db (stage.effect scope w db) := Stage.sameReach_effect stage
    exact ⟨ih.store.trans hstep.store, ih.index.trans hstep.index⟩

theorem Leaves.effect {w : RecordWrite} {stages : List Stage} {db' : Database}
    (h : db.Leaves scope w stages db') (hserved : stage.Served db' w.body) :
    db.Leaves scope w (stages ++ [stage]) (stage.effect scope w db') := by
  cases stage with
  | assignVersion =>
    exact ⟨by simp [Stage.effect], h.store, by simpa [Stage.effect] using h.held, h.index,
      by simpa [Stage.effect] using h.indexed⟩
  | commitEntity =>
    refine ⟨by simpa [Stage.effect] using h.clock, ?_, fun id => ?_, h.index,
      by simpa [Stage.effect] using h.indexed⟩
    · exact (db'.store.written_frame w).trans (congrArg (fun s : EntityStore =>
        { s with records := (db'.store.written w).records }) h.store)
    · have hheld : (db'.store.written w).get? id = _ := EntityStore.get?_written hserved w id
      simp only [Stage.effect, hheld, h.held id]
      by_cases hid : w.id = id
      · by_cases hdone : Stage.commitEntity ∈ stages
        · simp [hid, hdone, Record.overtakenBy_elim]
        · simp [hid, hdone]
      · simp [hid]
  | indexEntity =>
    refine ⟨by simpa [Stage.effect] using h.clock, h.store,
      by simpa [Stage.effect] using h.held, ?_, fun key => ?_⟩
    · simp only [Stage.effect, SearchIndex.holding]
      cases w.body with
      | tombstone => exact h.index
      | payload doc =>
        exact congrArg (fun x : SearchIndex =>
          { x with rows := db'.index.rows.insert ⟨scope, w.id, w.version⟩ doc }) h.index
    · have hindexed := h.indexed key
      simp only [Stage.effect, SearchIndex.holding]
      cases hbody : w.body with
      | tombstone => simp_all [RecordBody.payload?]
      | payload doc =>
        simp only [Std.ExtTreeMap.getElem?_insert, Std.compare_eq_iff_eq]
        by_cases hkey : key = ⟨scope, w.id, w.version⟩
        · simp [hkey, RecordBody.payload?]
        · simp [hkey, Ne.symm hkey, hindexed]

/-- **The effects of steps that are served come to what they leave behind.** -/
theorem leaves_after {w : RecordWrite} {stages : List Stage}
    (h : ∀ stage ∈ stages, stage.Served db w.body) :
    db.Leaves scope w stages (db.after scope w stages) := by
  induction stages using List.reverseRecOn with
  | nil => exact ⟨rfl, rfl, fun id => by simp [after], rfl, fun key => by simp [after]⟩
  | append_singleton stages stage ih =>
    have hbefore := ih fun s hs => h s (by simp [hs])
    have hreach : Stage.SameReach db (db.after scope w stages) := sameReach_after stages
    have hserved := hreach.served_iff.mpr (h stage (by simp))
    rw [after, List.foldl_append]
    exact hbefore.effect hserved

/-- **What becomes of an entity that is taken through steps**: it gets through all of them, or as
far as the first one that fails. -/
theorem runPipeline_cases (db : Database) (scope : Scope) (steps : List (Stage × Version))
    (draft : Draft) :
    let w := draft.writtenAs db.clock steps
    let stages := steps.map Prod.fst
    (draft.progress.Fits stages ∧ (∀ stage ∈ stages, stage.Served db draft.body) ∧
      db.runPipeline scope steps draft =
        (.ok (w.draft (draft.progress.after stages)), db.after scope w stages)) ∨
      ∃ before stage rest e, stages = before ++ stage :: rest ∧
        draft.progress.Fits before ∧ (∀ s ∈ before, s.Served db draft.body) ∧
        stage.Fails db draft.body (draft.progress.after before) e ∧
        db.runPipeline scope steps draft = (.error e, db.after scope w before) := by
  induction steps generalizing db draft with
  | nil =>
    intro w stages
    have hdraft : w.draft (draft.progress.after stages) = draft :=
      RecordWrite.draft_writtenAs draft db.clock []
    exact .inl ⟨trivial, by simp [stages], by rw [hdraft]; rfl⟩
  | cons first steps ih =>
    obtain ⟨stage, reading⟩ := first
    intro w stages
    rcases db.applyStage_cases scope stage reading steps draft with
      ⟨e, hfails, hstep⟩ | ⟨hfits, hserved, hstep⟩
    · refine .inr ⟨[], stage, _, e, rfl, trivial, by simp, hfails, ?_⟩
      rw [runPipeline, hstep]
      rfl
    · have hrun : db.runPipeline scope ((stage, reading) :: steps) draft =
          (stage.effect scope w db).runPipeline scope steps (w.draft stage.yields) := by
        rw [runPipeline, hstep]
      have hreach : Stage.SameReach db (stage.effect scope w db) := Stage.sameReach_effect stage
      have hnext := ih (stage.effect scope w db) (w.draft stage.yields)
      rw [RecordWrite.writtenAs_draft stage.yields_ne_raw, RecordWrite.progress_draft,
        RecordWrite.body_draft] at hnext
      rw [hrun]
      rcases hnext with ⟨hfits', hserved', hdone⟩ |
        ⟨before, last, rest, e, hsteps, hfits', hserved', hfails, hdone⟩
      · refine .inl ⟨⟨hfits, hfits'⟩, ?_, hdone⟩
        exact List.forall_mem_cons.mpr ⟨hserved, fun s hs => hreach.served_iff.mp (hserved' s hs)⟩
      · refine .inr ⟨stage :: before, last, rest, e, congrArg _ hsteps, ⟨hfits, hfits'⟩, ?_,
          hreach.fails hfails, hdone⟩
        exact List.forall_mem_cons.mpr ⟨hserved, fun s hs => hreach.served_iff.mp (hserved' s hs)⟩

theorem applyStage_of_tombstone (hbody : draft.body = .tombstone) (index : SearchIndex) :
    ({ db with index } : Database).applyStage scope reading stage draft =
      (db.applyStage scope reading stage draft).map fun (draft, db) =>
        (draft, { db with index }) := by
  by_cases hfits : stage.expects = draft.progress
  · cases stage with
    | assignVersion =>
      cases draft with
      | raw => rfl
      | versioned | committed => cases hfits
    | commitEntity =>
      cases draft with
      | versioned id version body =>
        simp only [applyStage]
        cases db.store.write id version body <;> rfl
      | raw | committed => cases hfits
    | indexEntity =>
      cases draft with
      | committed id version body =>
        obtain rfl : body = .tombstone := hbody
        rfl
      | raw | versioned => cases hfits
  · rw [applyStage_of_ne hfits, applyStage_of_ne hfits]
    rfl

/-- **A deletion goes through steps in the same way whatever the index is**, and leaves it so. -/
theorem runPipeline_of_tombstone (hbody : draft.body = .tombstone) (index : SearchIndex) :
    ({ db with index } : Database).runPipeline scope steps draft =
      ((db.runPipeline scope steps draft).1,
        { (db.runPipeline scope steps draft).2 with index }) := by
  induction steps generalizing db draft with
  | nil => rfl
  | cons first steps ih =>
    obtain ⟨stage, reading⟩ := first
    have hstep : ({ db with index } : Database).applyStage scope reading stage draft =
        (db.applyStage scope reading stage draft).map fun (draft, db) =>
          (draft, { db with index }) := applyStage_of_tombstone hbody index
    rw [runPipeline, runPipeline, hstep]
    rcases db.applyStage_cases scope stage reading steps draft with
      ⟨e, -, hfailed⟩ | ⟨-, -, hdone⟩
    · rw [hfailed]
      rfl
    · rw [hdone]
      exact ih (RecordWrite.body_draft.trans hbody)

/-- **What becomes of an entity that is taken through steps.** It gets through all of them exactly
if they fit together and every call that they make is answered; then it has come as far as the last
of them brings it, under one version, and each of them has taken effect. Otherwise there is a first
step that does not fit or is not served: the error says why, the steps before it have taken effect
and nothing else has happened. What the effects come to can be asked of the database (`Leaves`). A
deletion goes through its steps as if there were no index. -/
theorem runPipeline_exact (db : Database) (scope : Scope) (steps : List (Stage × Version))
    (draft : Draft) :
    let w := draft.writtenAs db.clock steps
    let stages := steps.map Prod.fst
    let run := db.runPipeline scope steps draft
    ((∃ done, run.1 = .ok done) ↔
      draft.progress.Fits stages ∧ ∀ stage ∈ stages, stage.Served db draft.body) ∧
    (∀ done, run.1 = .ok done →
      done = w.draft (draft.progress.after stages) ∧ run.2 = db.after scope w stages ∧
      db.Leaves scope w stages run.2) ∧
    (∀ e, run.1 = .error e → ∃ before stage rest, stages = before ++ stage :: rest ∧
      draft.progress.Fits before ∧ (∀ s ∈ before, s.Served db draft.body) ∧
      stage.Fails db draft.body (draft.progress.after before) e ∧
      run.2 = db.after scope w before ∧ db.Leaves scope w before run.2) ∧
    (draft.body = .tombstone → ∀ index,
      ({ db with index } : Database).runPipeline scope steps draft =
        (run.1, { run.2 with index })) := by
  intro w stages run
  rcases db.runPipeline_cases scope steps draft with
    ⟨hfits, hserved, hrun⟩ | ⟨before, stage, rest, e, hstages, hfits, hserved, hfails, hrun⟩
  · have hdone : run.1 = .ok (w.draft (draft.progress.after stages)) := congrArg Prod.fst hrun
    have hafter : run.2 = db.after scope w stages := congrArg Prod.snd hrun
    refine ⟨⟨fun _ => ⟨hfits, hserved⟩, fun _ => ⟨_, hdone⟩⟩, fun done h => ?_, fun e h => ?_,
      runPipeline_of_tombstone⟩
    · exact ⟨Except.ok.inj (h.symm.trans hdone), hafter, hafter ▸ leaves_after hserved⟩
    · cases hdone.symm.trans h
  · have herror : run.1 = .error e := congrArg Prod.fst hrun
    have hafter : run.2 = db.after scope w before := congrArg Prod.snd hrun
    have hstages : stages = before ++ stage :: rest := hstages
    refine ⟨⟨?_, ?_⟩, fun done h => ?_, fun e' h => ?_, runPipeline_of_tombstone⟩
    · rintro ⟨done, h⟩
      cases herror.symm.trans h
    · rintro ⟨hall, hanswered⟩
      rw [hstages] at hall hanswered
      exact absurd (hanswered stage (by simp))
        (hfails.not_served (Progress.fits_append_cons.mp hall).2.1)
    · cases herror.symm.trans h
    · obtain rfl := Except.error.inj (herror.symm.trans h)
      exact ⟨before, stage, rest, hstages, hfits, hserved, hfails, hafter,
        hafter ▸ leaves_after hserved⟩

-- An entity may be put into the index any number of times, but has one version and one record.
example : Progress.raw.Fits [.assignVersion, .commitEntity, .indexEntity, .indexEntity] ∧
    ¬ Progress.raw.Fits [.assignVersion, .commitEntity, .commitEntity] := by decide

end Database

end EntityQuery
