import Hf2l.Exchange.Python.Lineage
import Hf2l.Exchange.Python.Pinning

/-!
# `Hf2l.Exchange.Go.Integrity`: references, models and contents of the Go service

The Go service keeps a space intact until it is retired, its models of federated averaging are one
line, and it pins published content. Its profile of federated averaging accepts no more than that of
the Python service (`committed_lenient`), so that what is known about the histories of that service
applies. -/

set_option autoImplicit false

namespace Hf2l.Exchange.Go

open Lib Lib.Checked
open Service (Committed)
open FedAvg (Trace Linear traced)
open Python (Follows Upheld Watched)

/-! ### The profile -/

/-- The Go service with the profiles of the Python service. -/
def lenient : Dialect := { dialect with profiles := Python.dialect.profiles }

/-- The Go service takes the inputs of a result only as the Python service does. -/
theorem completionInputs_lenient {result : Descriptor} {frozen used : List Descriptor}
    {name : String} (h : completionInputs result frozen name = .ok used) :
    FedAvg.completionInputs result frozen name = .ok used := by
  unfold completionInputs at h
  unfold FedAvg.completionInputs
  split_ifs at h ⊢
  · exact h
  simp only [block_ok, refuse_ok, found_ok, not_or, not_not, Bool.not_eq_true] at h ⊢
  obtain ⟨declared, hdeclared, hnodup, used, hused, ⟨htexts, hdistinct⟩, hmin, rfl⟩ := h
  -- Every participant is a text.
  have htext : ∀ x ∈ used, ∃ s, FedAvg.participant x.creatorBindings = some (.str s) := by
    intro x hx
    have hsome := List.any_eq_false.mp htexts _ (List.mem_map_of_mem hx)
    unfold FedAvg.participantText at hsome
    rcases hp : FedAvg.participant x.creatorBindings with _ | j
    · simp [hp] at hsome
    · cases j <;> simp [hp, Json.str?] at hsome ⊢
  refine ⟨declared, hdeclared, hnodup, used, hused, ⟨hmin, ?_, ?_⟩, rfl⟩
  · unfold List.Nodup at hdistinct
    rw [List.pairwise_map] at hdistinct ⊢
    refine hdistinct.imp_of_mem fun {x y} hx hy hne => ?_
    obtain ⟨s, hs⟩ := htext x hx
    obtain ⟨t, ht⟩ := htext y hy
    simpa [hs, ht, FedAvg.participantText, FedAvg.sameParticipant, Json.eqv, Json.str?] using hne
  · rw [List.any_map, List.any_eq_false]
    intro x hx
    obtain ⟨s, hs⟩ := htext x hx
    simp [hs]

/-- **A command of the Go service is a step under the profile of the Python service.** -/
theorem committed_lenient {db db' : Db} {k : Service.Deed}
    (hp : db.ledger.space.profile = "fedavg.v1") (hc : Committed dialect db k db') :
    Committed lenient db k db' := by
  have hlenient : lenient.profiles db.ledger.space.profile = .ok FedAvg.profile := by
    rw [hp]
    rfl
  have hgo : ∀ {P : Profile → Prop},
      (∃ profile, dialect.profiles db.ledger.space.profile = .ok profile ∧ P profile) →
      P fedAvg := by
    rintro P ⟨profile, hprofile, h⟩
    rw [hp] at hprofile
    exact Except.ok.inj hprofile ▸ h
  -- The two differ in the error for a malformed result.
  have hvalid : ∀ name r used base, fedAvg.validateReference name r used base = .ok () →
      FedAvg.profile.validateReference name r used base = .ok () := by
    intro name r used base h
    change FedAvg.validateReferenceWith _ name r used base = _ at h ⊢
    unfold FedAvg.validateReferenceWith at h ⊢
    split_ifs at h ⊢
    · rfl
    · simpa only [block_ok, found_ok] using h
  cases hc with
  | idle hk h => exact .idle hk h
  | manage _ hm h0 h => exact .manage _ hm h0 h
  | limits _ hs h => exact .limits _ hs h
  | register _ _ _ h => exact .register _ _ _ h
  | policy _ _ hp hk hr h => exact .policy _ _ hp hk hr h
  | create _ _ _ ho hp hs ha h => exact .create _ _ _ ho hp hs ⟨_, hlenient, hgo ha⟩ h
  | patch _ _ _ _ hr hd ha hb hq h => exact .patch _ _ _ _ hr hd ⟨_, hlenient, hgo ha⟩ hb hq h
  | publish _ _ _ hr hd hp hb hv h => exact .publish _ _ _ hr hd hp hb hv h
  | withdraw _ _ hr hb href h => exact .withdraw _ _ hr hb href h
  | purge _ hr ht hblobs hb href h => exact .purge _ hr ht hblobs hb href h
  | retire _ _ hm h => exact .retire _ _ hm h
  | createReference _ _ hn ht hv h =>
    exact .createReference _ _ hn ht ⟨_, hlenient, hvalid _ _ _ _ (hgo hv)⟩ h
  | moveReference _ _ hn ht hv h =>
    exact .moveReference _ _ hn ht ⟨_, hlenient, hvalid _ _ _ _ (hgo hv)⟩ h
  | acquire _ _ _ _ _ hn hf h =>
    obtain ⟨profile, asked, hprofile, hselected⟩ := hf.selected
    cases hgo (P := (profile = ·)) ⟨_, hprofile, rfl⟩
    exact .acquire _ _ _ _ _ hn ⟨hf.mem, hf.published, _, asked, hlenient, hselected⟩ h
  | renew _ _ _ hc h => exact .renew _ _ _ hc h
  | abandon _ _ hc h => exact .abandon _ _ hc h
  | complete _ _ _ hc hg ht hv h =>
    obtain ⟨profile, member, p, used, hprofile, hused, hv⟩ := hv
    cases hgo (P := (profile = ·)) ⟨_, hprofile, rfl⟩
    refine .complete _ _ _ hc hg ht ⟨_, member, p, used, hlenient, ?_, hvalid _ _ _ _ hv⟩ h
    simp only [Service.usedInputs, block_ok] at hused ⊢
    obtain ⟨inputs, hinputs, used, hdone, hrest⟩ := hused
    exact ⟨inputs, hinputs, used, completionInputs_lenient hdone, hrest⟩

/-! ### Runs -/

section
variable (env : Env) (spaceId profile : String) (limits : Limits) (creator : Principal) (now : Time)

theorem step_upheld (db : Db) (tx : Tx × Clock) (h : Upheld db) : Upheld (step env db tx) :=
  ⟨(step_effect env h.sound tx fun _ => trivial).sound h.sound, h.stepped (step_stepped env db tx)⟩

theorem traced_watched (s : Db × Trace) (tx : Tx × Clock) (h : Watched s) :
    Watched (traced (step env) s tx) :=
  ⟨(step_swap env s.1 tx h.enrolled).2, step_upheld env s.1 tx h.upheld,
    h.stepped (e := lenient) rfl (fun _ => committed_lenient) (step_stepped env s.1 tx)⟩

/-- **The Go service keeps references, bases and visibility.** Until a space is retired its
references point to published and shared records, the bases of its published records are published,
and a record is shared exactly when the policy of its kind says so. -/
theorem references_intact (txs : List (Tx × Clock)) :
    Run.Always (step env) (fun db => db.retired = false → db.Integral)
      (Db.created spaceId profile limits creator now) txs := by
  refine Run.always_of_invariant (step_upheld env) (fun db h hr => ?_)
    (Python.created_upheld _ _ _ _ _) txs
  exact (h.intact.resolve_left (by simp [hr])).toIntegrity

/-- **The models of the Go service are one line**, until the space is retired: the first that `main`
pointed to has no provenance, each of the others is made on the one before it from at least two
published updates of different participants, and all of them are published and differ. -/
theorem models_linear (txs : List (Tx × Clock)) :
    Run.Always (traced (step env)) (fun s => s.1.retired = false → Linear s.1 s.2)
      (Db.created spaceId "fedavg.v1" limits creator now, ⟨[], []⟩) txs := by
  have hcreated : Watched (Db.created spaceId "fedavg.v1" limits creator now, ⟨[], []⟩) :=
    { enrolled := Db.created_enrolled _ _ _ _ _
      upheld := Python.created_upheld _ _ _ _ _
      history := Or.inr ⟨⟨rfl, nofun⟩, rfl, rfl, trivial, nofun, nofun⟩ }
  refine Run.always_of_invariant (traced_watched env) (fun s h hr => ?_) hcreated txs
  have hopen : ¬ s.1.retired = true := by simp [hr]
  exact (h.history.resolve_left hopen).2.linear (h.upheld.intact.resolve_left hopen).keyed

/-! ### Published content -/

/-- A commit goes from state to state as `execute` does. -/
def Tx.Executed : Tx → Prop
  | .commit a o => Follows a.state o.state
  | _ => True

/-- Commits go in the order of `execute`, and nothing else is restricted. -/
def ordered : Allowance := { unrestricted True with advance := fun _ => Follows }

theorem Tx.Executed.permitted {tx : Tx} (h : tx.Executed) : tx.Permitted ordered := by
  have hp : tx.Permitted (unrestricted True) := Tx.permitted_unrestricted fun _ => trivial
  cases tx with
  | commit a o => exact ⟨hp.1, h, hp.2.2⟩
  | _ => exact hp

theorem step_pinned {db : Db} {tx : Tx × Clock} (ht : tx.1.Executed) (h : db.ledger.Pinned) :
    (step env db tx).ledger.Pinned := by
  unfold step
  split
  · rename_i hrun
    have he : Effect ordered _ _ := Tx.run_effect rfl h.toSound ht.permitted hrun
    exact he.pinned ReleaseRule.go_lawful (fun _ _ _ => Follows.orderly) trivial (fun _ => id) h
  · exact h

/-- **The Go service pins published content.** Whatever the snapshots of the executions are, an
attachment has at most one wanted attempt, the object it names is that of a verified attempt until
its record is stopped, and those of a published record are verified as declared. -/
theorem content_pinned (txs : List {tx : Tx × Clock // tx.1.Executed}) :
    Run.Always (fun db tx => step env db tx.1) (·.ledger.Pinned)
      (Db.created spaceId profile limits creator now) txs :=
  Run.always_of_invariant (P := fun db : Db => db.ledger.Pinned) (fun _ tx => step_pinned env tx.2)
    (fun _ => id)
    (Python.Sys.Fenced.created_fenced spaceId profile limits creator now).pinned txs

end

namespace Sample

open Exchange.Sample

def start : Db := Db.created "space" "generic.v1" limits owner 0

/-- The execution of attempt `3` commits an outcome from the state that the attempt is in. -/
def commitNext (txs : List (Tx × Clock)) (state : TransferState) (o : Attempts.Outcome) (t : Time) :
    List (Tx × Clock) :=
  txs ++ (((run env start txs).ledger.attempt "3").filter (·.state = state)).toList.map fun a =>
    (.commit a o, still t)

theorem executed_commitNext {txs : List (Tx × Clock)} {state : TransferState} {o : Attempts.Outcome}
    {t : Time} (h : ∀ tx ∈ txs, tx.1.Executed) (ho : Follows state o.state) :
    ∀ tx ∈ commitNext txs state o t, tx.1.Executed := by
  refine List.forall_mem_append.mpr ⟨h, fun tx htx => ?_⟩
  obtain ⟨a, ha, rfl⟩ := List.mem_map.mp htx
  obtain ⟨-, hstate⟩ := Option.filter_eq_some_iff.mp (Option.mem_toList.mp ha)
  obtain rfl := of_decide_eq_true hstate
  exact ho

/-- An attachment is uploaded. -/
def uploaded : List (Tx × Clock) :=
  commitNext [(.command owner (.registerType "note" { schema := .obj [] } "type"), still 0),
    (.command owner (.createRecord ⟨"note", "0", .obj [], [⟨"a", 10, sha256, "x"⟩]⟩ "first"),
      still 0),
    (.initiate owner "1" "2", still 1)] .initiating (.uploading none) 2

/-- The upload is completed. -/
def completed : List (Tx × Clock) :=
  commitNext (uploaded ++ [(.completeUpload owner "1" "2", still 3)]) .completing (.verifying "v") 4

/-- The object is verified, and the record is published. -/
def published : List (Tx × Clock) :=
  commitNext (completed ++ [(.acquire "3" (some false), still 5)]) .verifying
    (.verified 10 sha256) 6 ++ [(.command owner (.publishRecord "1" "publish"), still 7)]

theorem published_executed : ∀ tx ∈ published, tx.1.Executed := by
  have huploaded : ∀ tx ∈ uploaded, tx.1.Executed :=
    executed_commitNext (by simp [Tx.Executed]) .started
  have hcompleted : ∀ tx ∈ completed, tx.1.Executed :=
    executed_commitNext (List.forall_mem_append.mpr ⟨huploaded, by simp [Tx.Executed]⟩) .completed
  have hverified :=
    executed_commitNext (t := 6) (o := .verified 10 sha256) (List.forall_mem_append.mpr
    ⟨hcompleted, (by simp [Tx.Executed] : ∀ tx ∈ [(Tx.acquire "3" (some false), still 5)],
      tx.1.Executed)⟩) .verified
  exact List.forall_mem_append.mpr ⟨hverified, by simp [Tx.Executed]⟩

end Sample

/-- The published attachment is verified as declared, and it was pinned all along. -/
theorem content_pinned_published :
    (run Sample.env Sample.start Sample.published).ledger.records.map (·.state) = [.published] ∧
    (run Sample.env Sample.start Sample.published).ledger.blobs.map
      (fun b => (b.state, b.verifiedSize)) = [(.verified, some 10)] ∧
    Run.Always (fun db tx => step Sample.env db tx.1) (·.ledger.Pinned) Sample.start
      (Sample.published.attachWith _ Sample.published_executed) :=
  ⟨by decide +kernel, by decide +kernel,
    content_pinned Sample.env "space" "generic.v1" Sample.limits Sample.owner 0 _⟩

end Hf2l.Exchange.Go
