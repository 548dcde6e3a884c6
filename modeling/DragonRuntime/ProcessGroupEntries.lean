/-
# Every worker has its entry in the history of a process group

Of a history that is true, what is left to ask is that it is complete: each worker that was ever
created has one entry, in one of the two lists, and the entry at a place of the active list is a
worker of the template of that place.

Two steps can break this.  A new group takes the place of the whole active list, so that what the
list still has is lost: after all workers have exited by themselves, nothing has archived them.  And
a restart lists the set of the new workers in any order, which need not be the order of the
templates of the workers that they replace.
-/
import DragonRuntime.ProcessGroupHistory

namespace PGManager

variable {τ : Type} {w w' : PGManager τ} {h h' : PGProcessHistory} {workers : List (PGWorker τ)}

/-- The workers are those of the history, and those of the active list are at their places: `Start`
knows of no place until it has created the group. -/
structure Complete (h : PGProcessHistory) (workers : List (PGWorker τ)) (d : PGState τ) : Prop where
  perm : ((h.active_processes ++ h.inactive_processes).map Prod.fst).Perm
    (workers.map PGWorker.puid)
  slots : d.state ≠ .start → d.state ≠ .error → ∀ (i p : ℕ) (e : Option ℤ),
    h.active_processes[i]? = some (p, e) →
      ∃ v ∈ workers, v.puid = p ∧ d.p_templates_expanded[i]? = some v.template
  first : d.state = .addTemplates → h.active_processes = []

namespace Complete

/-- Another state of the group, or one that knows of no place. -/
theorem goes {d d' : PGState τ} (hc : Complete h workers d) (hfirst : d'.state ≠ .addTemplates)
    (heq : d'.state = .start ∨ d'.state = .error ∨ d.state ≠ .start ∧ d.state ≠ .error ∧
      d'.p_templates_expanded = d.p_templates_expanded) : Complete h workers d' := by
  refine ⟨hc.perm, fun hstart herror => ?_, fun h => absurd h hfirst⟩
  rcases heq with heq | heq | ⟨hstart', herror', heq⟩
  · exact absurd heq hstart
  · exact absurd heq herror
  · rw [heq]
    exact hc.slots hstart' herror'

theorem update {d : PGState τ} (hc : Complete h workers d) (hi : h.Indexed) (l : List (ℕ × ℤ)) :
    Complete (h.update_active_processes l) workers d := by
  obtain ⟨-, hu⟩ := hi.update_active_processes l
  refine ⟨?_, fun hstart herror i p e hp => ?_, fun hfirst => ?_⟩
  · rw [List.map_append, hu.puids, hu.inactive, ← List.map_append]
    exact hc.perm
  · have hfst : (h.active_processes.map Prod.fst)[i]? = some p := by
      rw [← hu.puids, List.getElem?_map, hp]
      rfl
    rw [List.getElem?_map] at hfst
    obtain ⟨⟨q, e'⟩, hq, rfl⟩ := Option.map_eq_some_iff.1 hfst
    exact hc.slots hstart herror i q e' hq
  · have hnil := hu.puids
    rw [hc.first hfirst] at hnil
    exact List.map_eq_nil_iff.1 hnil

theorem archive {d : PGState τ} (hc : Complete h workers d) :
    Complete h.archive_active workers d := by
  refine ⟨List.Perm.trans ?_ hc.perm, nofun, fun _ => rfl⟩
  show ((h.inactive_processes ++ h.active_processes).map Prod.fst).Perm _
  exact List.perm_append_comm.map _

theorem exits {d : PGState τ} (hc : Complete h workers d) (puid : ℕ) (ecode : ℤ) :
    Complete h (workers.map fun v =>
      if v.puid = puid ∧ v.ecode = none then { v with ecode := some ecode } else v) d := by
  refine ⟨?_, fun hstart herror i p e hp => ?_, hc.first⟩
  · rw [List.map_map]
    refine hc.perm.trans (List.Perm.of_eq (List.map_congr_left fun v _ => ?_))
    show _ = (if _ then _ else _ : PGWorker τ).puid
    split <;> rfl
  · obtain ⟨v, hv, hpuid, htemplate⟩ := hc.slots hstart herror i p e hp
    refine ⟨_, List.mem_map_of_mem hv, ?_, ?_⟩
    · rw [← hpuid]
      split <;> rfl
    · rw [htemplate]
      split <;> rfl

/-- A new group, with nothing left of the one before. -/
theorem created {d d' : PGState τ} (hc : Complete h workers d) (hnil : h.active_processes = [])
    {g : ℕ} {puids : List ℕ} {templates : List τ} (hfirst : d'.state ≠ .addTemplates)
    (hexpanded : d'.p_templates_expanded = templates) (hlength : puids.length = templates.length) :
    Complete ((h.init_active_processes puids).add_guid g) (workers ++ newWorkers g puids templates)
      d' := by
  have hfst : ((h.init_active_processes puids).add_guid g).active_processes.map Prod.fst = puids := by
    show (puids.map fun p => (p, (none : Option ℤ))).map Prod.fst = puids
    rw [List.map_map]
    exact List.map_id puids
  refine ⟨?_, fun _ _ i p e hp => ?_, fun h => absurd h hfirst⟩
  · have hperm := hc.perm
    rw [hnil, List.nil_append] at hperm
    rw [List.map_append, hfst, List.map_append, newWorkers_puid hlength]
    exact List.perm_append_comm.trans (hperm.append_right puids)
  · have hpi : puids[i]? = some p := by
      rw [← hfst, List.getElem?_map, hp]
      rfl
    obtain ⟨hlt, -⟩ := List.getElem?_eq_some_iff.1 hpi
    have hti : templates[i]? = some templates[i] := List.getElem?_eq_getElem (hlength ▸ hlt)
    have hzip : (puids.zip templates)[i]? = some (p, templates[i]) :=
      List.getElem?_zip_eq_some.2 ⟨hpi, hti⟩
    refine ⟨⟨p, g, templates[i], none⟩, List.mem_append_right _ ?_, rfl, ?_⟩
    · exact List.mem_map.2 ⟨_, List.mem_of_getElem? hzip, rfl⟩
    · rw [hexpanded]
      exact hti

end Complete

/-! ## Workers that are replaced -/

/-- Each of the new workers, in the order in which the set of them is listed, is of the template
that it is wanted for. -/
def InOrder (templates : List τ) (puids new_puids : List ℕ) : Prop :=
  ∀ pt ∈ new_puids.zip templates, pt ∈ puids.zip templates

/-- Where nothing is left out, everything stays at its place. -/
theorem getElem?_filterMap {α β : Type} {f : α → Option β} {l : List α}
    (hl : ∀ a ∈ l, f a ≠ none) (k : ℕ) : (l.filterMap f)[k]? = l[k]?.bind f := by
  induction l generalizing k with
  | nil => rfl
  | cons a l ih =>
    obtain ⟨b, hb⟩ := Option.ne_none_iff_exists'.1 (hl a List.mem_cons_self)
    rw [List.filterMap_cons_some hb]
    cases k with
    | zero => exact hb.symm
    | succ k => exact ih (fun a' ha' => hl a' (List.mem_cons_of_mem a ha')) k

/-- The template of the `k`-th of the workers to be replaced. -/
theorem Hist.getElem?_templates (hw : w.Hist) {templates : List τ} {gone_procs : List (ℕ × ℕ)}
    {msg : PGSignalMessage τ} (hplace : w.place = .adding templates gone_procs msg)
    (hstate : w.the_state.state = .running) {k : ℕ} {g : ℕ × ℕ} (hk : gone_procs[k]? = some g) :
    templates[k]? = w.the_state.p_templates_expanded[g.2]? := by
  obtain ⟨hg, rfl⟩ := hw.adding _ _ _ hplace
  rw [getElem?_filterMap, hk]
  · rfl
  · intro g' hmem
    obtain ⟨c, hc⟩ := hg.code g' hmem
    obtain ⟨hlt, -⟩ := List.getElem?_eq_some_iff.1 hc
    have hle := hw.grouped.places (hw.grouped.g_uid (Or.inr (Or.inl hstate)))
    rw [List.getElem?_eq_getElem (hlt.trans_le hle)]
    exact Option.some_ne_none _

/-- Workers are replaced, each by one of its template. -/
theorem Hist.complete_added (hw : w.Hist) (hc : Complete w.cur_procs w.workers w.the_state)
    {gone_procs : List (ℕ × ℕ)} {msg : PGSignalMessage τ} {templates : List τ}
    {puids new_puids : List ℕ} {w₀ : PGManager τ}
    (hadds : Adds w gone_procs msg templates puids new_puids w₀)
    (hreplace : w.cur_procs.replace_and_archive_processes new_puids gone_procs = some h)
    (horder : InOrder templates puids new_puids) : Complete h w₀.workers w.the_state := by
  have hperm := hw.adds_perm hadds
  have hstate := hadds.state
  obtain ⟨hlen, -, hrep⟩ := hw.replaced hadds hreplace
  obtain ⟨hg, -⟩ := hw.adding _ _ _ hadds.place
  have hstart : w.the_state.state ≠ .start := by
    rw [hstate]
    decide
  have herror : w.the_state.state ≠ .error := by
    rw [hstate]
    decide
  refine ⟨?_, fun _ _ i p e hp => ?_, fun hfirst => ?_⟩
  · have hpuids : w₀.workers.map PGWorker.puid = w.workers.map PGWorker.puid ++ puids := by
      rw [hadds.eq, List.map_append, newWorkers_puid hadds.length]
    rw [hpuids]
    refine (replaced_perm hrep).trans ?_
    rw [List.map_snd_zip hlen.le]
    exact (hc.perm.append_right _).trans (hperm.append_left _)
  · rcases replaced_cases hrep hp with ⟨x, hx, rfl, hitem⟩ | ⟨-, hp⟩
    · -- the `k`-th of the new workers is at the place of the `k`-th of the old ones
      obtain ⟨k, hk⟩ := List.mem_iff_getElem?.1 hx
      obtain ⟨hgk, hnk⟩ := List.getElem?_zip_eq_some.1 hk
      obtain ⟨rfl, -⟩ := Prod.mk.inj hitem
      obtain ⟨c, hcode⟩ := hg.code x.1 (List.mem_of_getElem? hgk)
      obtain ⟨v', -, -, hv'⟩ := hc.slots hstart herror _ _ _ hcode
      have htk : templates[k]? = some v'.template :=
        (hw.getElem?_templates hadds.place hstate hgk).trans hv'
      have hpair : (x.2, v'.template) ∈ puids.zip templates :=
        horder _ (List.mem_of_getElem? (List.getElem?_zip_eq_some.2 ⟨hnk, htk⟩))
      refine ⟨⟨x.2, w.the_state.g_uid.getD 0, v'.template, none⟩, ?_, rfl, hv'⟩
      rw [hadds.eq]
      exact List.mem_append_right _ (List.mem_map.2 ⟨_, hpair, rfl⟩)
    · obtain ⟨v, hv, hv'⟩ := hc.slots hstart herror i p e hp
      refine ⟨v, ?_, hv'⟩
      rw [hadds.eq]
      exact List.mem_append_left _ hv
  · rw [hstate] at hfirst
    exact nomatch hfirst

/-! ## Every run -/

/-- The condition: a new group takes the place of no worker of the active list, and new workers are
listed in the order of the templates they are wanted for. -/
def Keeps (w : PGManager τ) : PGAction τ → Prop
  | .created _ _ => w.the_state.state = .start → w.cur_procs.active_processes = []
  | .added puids new_puids => ∀ templates gone_procs msg,
    w.place = .adding templates gone_procs msg → InOrder templates puids new_puids
  | _ => True

/-- **Step lemma.** -/
theorem Complete.move {a : PGAction τ} (hc : Complete w.cur_procs w.workers w.the_state)
    (hw : w.Hist) (hkeeps : Keeps w a) (hmove : Move w a w') :
    Complete w'.cur_procs w'.workers w'.the_state := by
  have hinto : ∀ {h : PGProcessHistory} {d : PGState τ}, Complete h w.workers w.the_state →
      w.the_state.state ∉ [BaseState.start, .error] → d.state ≠ .addTemplates →
      d.p_templates_expanded = w.the_state.p_templates_expanded → Complete h w.workers d := by
    intro h d hc' hnot hfirst heq
    refine hc'.goes hfirst (Or.inr (Or.inr ⟨fun hs => hnot ?_, fun hs => hnot ?_, heq⟩))
    · rw [hs]
      exact List.mem_cons_self
    · rw [hs]
      exact List.mem_cons_of_mem _ List.mem_cons_self
  have hstop : ∀ {msg : PGSignalMessage τ} {w₀ : PGManager τ}, Stopped w msg w₀ →
      Complete w₀.cur_procs w.workers w.the_state := by
    intro msg w₀ hstopped
    cases hstopped with
    | quiet => exact hc
    | joined _ _ _ success => exact (hc.update hw.known.recorded.indexed success).archive
  cases hmove with
  | stutter => exact hc
  | request => exact hc
  | tick => exact hc
  | exits puid ecode => exact hc.exits puid ecode
  | take _ w₀ _ htaken =>
    obtain ⟨hcur, hworkers, -⟩ := htaken.frame
    show Complete w₀.cur_procs w₀.workers w₀.the_state
    rw [hcur, hworkers, htaken.the_state]
    exact hc
  | refuse _ _ _ htaken =>
    obtain ⟨hcur, hworkers, -⟩ := htaken.frame
    rw [finish_cur_procs, finish_workers, finish_the_state, hcur, hworkers, htaken.the_state]
    exact hc
  | addTemplates _ _ hstate =>
    refine ⟨hc.perm, fun _ _ i p e hp => ?_, nofun⟩
    -- there is no worker yet
    have hnil : w.cur_procs.active_processes[i]? = some (p, e) := hp
    rw [hc.first hstate] at hnil
    exact nomatch hnil
  | stopping => exact hc
  | stopAgain => exact hc
  | idleStart _ w₀ hstopped =>
    obtain ⟨-, -, hworkers, -⟩ := hw.stopped hstopped
    show Complete w₀.cur_procs w₀.workers _
    rw [hworkers]
    exact (hstop hstopped).goes nofun (Or.inl rfl)
  | idleJoin _ w₀ hstopped =>
    obtain ⟨-, -, hworkers, -⟩ := hw.stopped hstopped
    show Complete w₀.cur_procs w₀.workers _
    rw [hworkers]
    exact hinto (hstop hstopped) (by rw [hstopped.state]; decide) nofun rfl
  | idleStays _ w₀ hstopped =>
    obtain ⟨-, -, hworkers, -⟩ := hw.stopped hstopped
    rw [succeed, finish_cur_procs, finish_workers, finish_the_state]
    show Complete w₀.cur_procs w₀.workers w₀.the_state
    rw [hworkers, hstopped.the_state]
    exact hstop hstopped
  | created _ _ _ _ hstate _ _ hlength =>
    exact hc.created (hkeeps hstate) nofun rfl hlength
  | makeJoiner _ _ hstate => exact hinto hc (by rw [hstate]; decide) nofun rfl
  | runStop _ _ hstate => exact hinto hc (by rw [hstate]; decide) nofun rfl
  | runJoin _ _ hstate => exact hinto hc (by rw [hstate]; decide) nofun rfl
  | runJoinFinal _ _ hstate => exact hinto hc (by rw [hstate]; decide) nofun rfl
  | runStopMaintaining _ _ hstate => exact hinto hc (by rw [hstate]; decide) nofun rfl
  | runStays =>
    rw [succeed, finish_cur_procs, finish_workers, finish_the_state]
    exact hc
  | runExit _ _ hstate => exact hinto hc (by rw [hstate]; decide) nofun rfl
  | runRestart => exact hc
  | added gone_procs msg templates _ _ _ _ hadds hreplace =>
    have horder := hkeeps templates gone_procs msg hadds.place
    have hstate := hadds.state
    refine (hw.complete_added hc hadds hreplace horder).goes nofun
      (Or.inr (Or.inr ⟨?_, ?_, rfl⟩)) <;> rw [hstate] <;> decide
  | addedFails _ _ _ _ _ _ hadds hreplace =>
    exact absurd hreplace (hw.replace_ne_none hadds)
  | joinBegin _ _ hstate | joinItem _ _ _ _ _ _ _ _ hstate =>
    refine hinto hc (by rw [hstate]; decide) (fun h => ?_) rfl
    exact nomatch hstate.symm.trans h
  | joinEnd _ _ _ _ hstate => exact hinto hc (by rw [hstate]; decide) nofun rfl
  | joinedFails _ _ _ _ hplace hanswered hjoin =>
    exact absurd hjoin (hw.not_joinedFails hplace hanswered)
  | raises =>
    rw [fail_cur_procs, fail_workers, fail_the_state]
    exact hc.goes nofun (Or.inr (Or.inl rfl))
  | joinerMoves => exact hc
  | joinerRecord _ _ stat =>
    have hindexed := (hw.known.recorded.indexed.update_active_processes
      (get_multi_join_failure_puids stat)).1
    exact (hc.update hw.known.recorded.indexed _).update hindexed _
  | joinerEnds => exact hc

/-- The history is faithful: each worker that was ever created has one entry, the dictionary and the
counts fit the lists, an exit code is the one of the worker, and between two requests the worker at
a place of the active list is one of the template of that place. -/
structure Faithful (w : PGManager τ) : Prop where
  entries : ((w.cur_procs.active_processes ++ w.cur_procs.inactive_processes).map Prod.fst).Perm
    (w.workers.map PGWorker.puid)
  nodup : (w.workers.map PGWorker.puid).Nodup
  indexed : w.cur_procs.Indexed
  truth : ∀ p c, (p, some c) ∈ w.cur_procs.active_processes ++ w.cur_procs.inactive_processes →
    Exited w.workers p c
  slots : w.place = .ready → ∀ (i p : ℕ) (e : Option ℤ),
    w.cur_procs.active_processes[i]? = some (p, e) →
      ∃ v ∈ w.workers, v.puid = p ∧ w.the_state.p_templates_expanded[i]? = some v.template

theorem Complete.faithful (hc : Complete w.cur_procs w.workers w.the_state) (hw : w.Hist)
    (hplaced : w.Placed) : w.Faithful where
  entries := hc.perm
  nodup := hw.known.recorded.nodup
  indexed := hw.known.recorded.indexed
  truth := hw.known.recorded.truth
  slots hplace := by
    refine hc.slots ?_ ?_ <;> rcases hplaced.ready hplace with h | h | h <;> rw [h] <;> decide

/-- **The history.**  In every run in which no active list is taken the place of and new workers are
listed in order, the history is faithful in every state. -/
theorem faithful_of_keeps (puid : ℕ) (restart ignore_error_on_exit : Bool) (walltime : Option ℚ)
    (actions : List (PGAction τ))
    (hactions : Runs.Legal exec Keeps (init puid restart ignore_error_on_exit walltime) actions) :
    (actions.foldl exec (init puid restart ignore_error_on_exit walltime)).Faithful := by
  have hplaced := placed_init (τ := τ) puid restart ignore_error_on_exit walltime
  have hhist := hist_init (τ := τ) puid restart ignore_error_on_exit walltime
  obtain ⟨hplaced', -⟩ := hist_run puid restart ignore_error_on_exit walltime actions
  obtain ⟨hw, hc⟩ := legal_invariant
    (I := fun w : PGManager τ => w.Hist ∧ Complete w.cur_procs w.workers w.the_state)
    (fun w a w' hplaced hw hkeeps hmove =>
      ⟨hw.1.move hplaced hmove, hw.2.move hw.1 hkeeps hmove⟩)
    hplaced ⟨hhist, List.Perm.refl _, nofun, fun _ => rfl⟩ hactions
  exact hc.faithful hw hplaced'

/-- A group of two workers, which both exit and are replaced. -/
def restarted : List (PGAction ℕ) :=
  [.request 7 1 (.add_processes [(1, 20), (1, 21)]), .get, .step, .step, .request 7 2 .start, .get,
    .step, .created 5 [10, 11], .step, .step, .joinerStep 0, .exits 11 0, .exits 10 1,
    .joinerAnswered 0 false, .joinerStep 0, .joinerStep 0, .get, .step, .step, .step, .step,
    .added [12, 13] [12, 13], .step, .step]

theorem faithful_of_keeps_restarted :
    Runs.Legal exec Keeps (init 1 true true none) restarted ∧
      (restarted.foldl exec (init 1 true true none)).Faithful := by
  have hlegal : Runs.Legal exec Keeps (init 1 true true none) restarted :=
    ⟨trivial, trivial, trivial, trivial, trivial, trivial, trivial, fun _ => rfl, trivial, trivial,
      trivial, trivial, trivial, trivial, trivial, trivial, trivial, trivial, trivial, trivial,
      trivial, fun _ _ _ _ _ h => h, trivial, trivial, trivial⟩
  exact ⟨hlegal, faithful_of_keeps 1 true true none restarted hlegal⟩

/-- A group of one worker, which exits by itself, and another group after it. -/
def startedAgain : List (PGAction ℕ) :=
  [.request 7 1 (.add_processes [(1, 20)]), .get, .step, .step, .request 7 2 .start, .get, .step,
    .created 5 [10], .step, .step, .joinerStep 0, .exits 10 0, .joinerAnswered 0 false,
    .joinerStep 0, .joinerStep 0, .get, .step, .step, .step, .step, .step, .request 7 3 .start,
    .get, .step, .created 6 [11], .step, .step]

/-- The entry of the first worker is lost, with its exit code. -/
theorem not_faithful_startedAgain :
    ¬ (startedAgain.foldl exec (init 1 false true none)).Faithful := by
  intro h
  have hlength := h.entries.length_eq
  exact absurd hlength (by decide)

end PGManager
