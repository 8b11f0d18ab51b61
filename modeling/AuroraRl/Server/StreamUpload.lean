import AuroraRl.Server.Effects
import AuroraRl.Server.Ranges

/-!
# One streaming upload, from its first chunk to its registration

* `StreamSession` : an upload that `/stage_stream_init` opened;
* `UploadPhase`, `InPhase` : open, renamed and about to be registered, registered, or given up;
* `sessionProtocol` : what the chunk and finalize requests of the upload keep, and what each segment does to it;
* `streamUploadAssembly` : the recorded ranges, the completeness check and the bytes of the staged file.
-/

namespace AuroraRl.Server
open Coroutine Protocol Transition

/-- A streaming upload as it was opened, its staged path and its version. -/
structure StreamSession where
  uploadId : String
  ref : Nat
  upload : StageUpload
  stagedPath : PurePath
  version : String
  stagedPath_eq : upload.stagedPath = some stagedPath
  version_eq : upload.version = some version
  path_ne : upload.path ≠ stagedPath
  ranges_eq : upload.ranges = []

/-- The chunk a request brings once its body is there. -/
def chunkOf [Host] (request : Request) : List ChunkWrite :=
  match parseNonNegativeInt (queryFields request) "offset" with
  | .ok (.ok offset) => if request.body.bytes = [] then [] else [(offset, request.body.bytes)]
  | _ => []

/-- The bytes that a step writes: those of a chunk request whose body has been read. -/
def chunkWrites [Host] : ServerAction → List ChunkWrite
  | .answer q (.operation .readBody) (.ok ()) => if q.route = .stageStreamChunk then chunkOf q else []
  | _ => []

/-- The total size a finalize request names. -/
def finalSize [Host] (request : Request) : Option Nat :=
  match parseNonNegativeInt (requestFields request).1 "final_size" with
  | .ok (.ok n) => some n
  | _ => none

inductive UploadPhase
  | opened
  | pending
  | done
  | failed
  deriving DecidableEq

/-- What a suspended request of the upload still has to do with it: nothing, the registration of the renamed file,
or the answer after it. -/
inductive UploadClaim
  | idle
  | registering
  | registered
  deriving DecidableEq

namespace StreamSession

variable {W A : Type} (S : StreamSession)

def key : String := stageStreamUploadKey S.uploadId

def entry : StagedEntry := ⟨S.stagedPath, S.upload.mode, S.upload.baseVersion, true⟩

/-- The upload takes chunks. -/
def Open (s : ServerState W A) : Prop := s.stageUploads.get? S.key = some S.ref

/-- The upload is registered, and its file is there. -/
def Done (s : ServerState W A) : Prop :=
  s.stagedVersions.get? S.version = some S.entry ∧ ∃ content, s.files S.stagedPath = some (.file content)

/-- No staged version names the file of the upload. -/
def Unstaged (s : ServerState W A) : Prop := ∀ v e, s.stagedVersions.get? v = some e → e.path ≠ S.stagedPath

/-- The object is as it was opened but for the chunks received, and its temporary file is its own. -/
structure Sound (s : ServerState W A) : Prop where
  upload : ∃ ranges chunks, s.uploadObjects S.ref = { S.upload with ranges := ranges, chunks := chunks }
  only : ∀ ref, s.stageUploads.get? S.key = some ref → ref = S.ref
  temp : s.files S.upload.path ≠ some .directory
  private_ : ∀ v e, s.stagedVersions.get? v = some e → e.path ≠ S.upload.path

def InPhase (s : ServerState W A) : UploadPhase → Prop
  | .opened => S.Open s ∧ (∃ content, s.files S.upload.path = some (.file content)) ∧
      s.files S.stagedPath = none ∧ S.Unstaged s
  | .pending => ¬ S.Open s ∧ (∃ content, s.files S.stagedPath = some (.file content)) ∧ S.Unstaged s
  | .done => ¬ S.Open s ∧ S.Done s ∧ ∀ v e, s.stagedVersions.get? v = some e → e.path = S.stagedPath → v = S.version
  | .failed => ¬ S.Open s ∧ S.Unstaged s

def Admits [Host] (request : Request) : Prop :=
  (request.route = .stageStreamChunk ∧
      ∃ v, (queryFields request).get? "upload_id" = some v ∧ v.text = S.uploadId) ∨
    (request.route = .stageStreamFinalize ∧
      ∃ v, (requestFields request).1.get? "upload_id" = some v ∧ v.text = S.uploadId)

/-- What a step does to the upload. -/
structure Advance [Host] (a : ServerAction) (s s' : ServerState W A) : Prop where
  ranges : (s'.uploadObjects S.ref).ranges = writtenRanges (s.uploadObjects S.ref).ranges (chunkWrites a)
  opened : S.Open s' → S.Open s ∧ ∀ content, s.files S.upload.path = some (.file content) →
    s'.files S.upload.path = some (.file (applyWrites content (chunkWrites a)))
  staged : s'.files S.stagedPath = s.files S.stagedPath ∨ s'.files S.stagedPath = none ∨
    (S.Open s ∧ chunkWrites a = [] ∧ s'.files S.stagedPath = s.files S.upload.path ∧
      ∃ n, a.request.route = .stageStreamFinalize ∧ finalSize a.request = some n ∧
        uploadComplete (s.uploadObjects S.ref).ranges n = true)
  fail : s'.relayFailOnPeerError = s.relayFailOnPeerError
  relayed : s.relayed ⊆ s'.relayed
  done : S.Done s → S.Done s'

/-- At most one request has the registration left to do, and only while it is pending. -/
def Claimed (tasks : List (Bool × UploadClaim)) (phase : UploadPhase) : Prop :=
  tasks.countP (fun t => t.2 = .registering) = (if phase = .pending then 1 else 0) ∧
    ∀ t ∈ tasks, t.2 = .registered → phase = .done

def Inv (tasks : List (Bool × UploadClaim)) (s : ServerState W A) : Prop :=
  S.Sound s ∧ ∃ phase, S.InPhase s phase ∧ Claimed tasks phase

theorem claimed_idle {tasks : List (Bool × UploadClaim)} {phase : UploadPhase} {held : Bool} :
    Claimed ((held, .idle) :: tasks) phase ↔ Claimed tasks phase := by
  unfold Claimed
  simp

theorem claimed_registering {tasks : List (Bool × UploadClaim)} {phase : UploadPhase} {held : Bool} :
    Claimed ((held, .registering) :: tasks) phase ↔ phase = .pending ∧ Claimed tasks .opened := by
  unfold Claimed
  simp only [List.countP_cons, List.forall_mem_cons]
  cases phase <;> simp

variable {S}

theorem Inv.perm {tasks tasks' : List (Bool × UploadClaim)} {s : ServerState W A} (h : S.Inv tasks s)
    (hperm : tasks.Perm tasks') : S.Inv tasks' s := by
  obtain ⟨hsound, phase, hphase, hcount, hdone⟩ := h
  refine ⟨hsound, phase, hphase, ?_, fun t ht => hdone t (hperm.mem_iff.2 ht)⟩
  rw [← hcount]
  exact (hperm.countP_eq _).symm

theorem inv_idle {tasks : List (Bool × UploadClaim)} {held : Bool} {s : ServerState W A} :
    S.Inv ((held, .idle) :: tasks) s ↔ S.Inv tasks s := by
  unfold Inv
  simp only [claimed_idle]

theorem Inv.registered {tasks : List (Bool × UploadClaim)} {held : Bool} {s : ServerState W A}
    (h : S.Inv ((held, .registered) :: tasks) s) : S.Inv tasks s ∧ S.Done s := by
  obtain ⟨hsound, phase, hphase, hcount, hdone⟩ := h
  obtain rfl : phase = .done := hdone _ List.mem_cons_self rfl
  rw [List.countP_cons_of_neg (by simp)] at hcount
  exact ⟨⟨hsound, .done, hphase, hcount, fun t ht => hdone t (List.mem_cons_of_mem _ ht)⟩, hphase.2.1⟩

theorem Inv.relayed {tasks : List (Bool × UploadClaim)} {s : ServerState W A} (h : S.Inv tasks s)
    (sends : List RelaySend) : S.Inv tasks { s with relayed := sends } := by
  obtain ⟨hsound, phase, hphase, hclaimed⟩ := h
  refine ⟨⟨hsound.upload, hsound.only, hsound.temp, hsound.private_⟩, phase, ?_, hclaimed⟩
  cases phase <;> exact hphase

/-! ### Steps -/

variable [Host] {a : ServerAction} {s s' : ServerState W A} {tasks : List (Bool × UploadClaim)}

theorem Advance.refl (h : chunkWrites a = []) (s : ServerState W A) : S.Advance a s s := by
  refine ⟨?_, fun hopen => ⟨hopen, fun content hcontent => ?_⟩, Or.inl rfl, rfl, fun _ hm => hm, id⟩
  · rw [h]
    rfl
  · rw [h]
    exact hcontent

theorem Advance.record (h : S.Advance a s s') (sends : List RelaySend) :
    S.Advance a s { s' with relayed := s'.relayed ++ sends } :=
  ⟨h.ranges, h.opened, h.staged, h.fail, fun _ hm => List.mem_append_left _ (h.relayed hm), h.done⟩

/-- A chunk goes into the temporary file, and into no other. -/
theorem inv_chunkWritten {offset : Nat} {chunk content : Bytes} (hinv : S.Inv tasks s)
    (hopen : openForUpdate s (s.uploadObjects S.ref).path = .ok content) (hw : chunkWrites a = [(offset, chunk)]) :
    S.Inv tasks (chunkWritten s S.ref offset chunk content) ∧
      S.Advance a s (chunkWritten s S.ref offset chunk content) := by
  obtain ⟨hsound, phase, hphase, hclaimed⟩ := hinv
  obtain ⟨ranges, chunks, hupload⟩ := hsound.upload
  have hpath : (s.uploadObjects S.ref).path = S.upload.path := by rw [hupload]
  rw [hpath] at hopen
  have hself : (chunkWritten s S.ref offset chunk content).files S.upload.path =
      some (.file (writeAt content offset chunk)) := by
    change (setFile s (s.uploadObjects S.ref).path _).files S.upload.path = _
    rw [hpath]
    exact files_setFile_self ..
  have hother : (chunkWritten s S.ref offset chunk content).files S.stagedPath = s.files S.stagedPath := by
    change (setFile s (s.uploadObjects S.ref).path _).files S.stagedPath = _
    rw [hpath]
    exact files_setFile_of_ne _ _ S.path_ne.symm
  have hobject : (chunkWritten s S.ref offset chunk content).uploadObjects S.ref =
      { s.uploadObjects S.ref with
        ranges := mergeReceivedRange (s.uploadObjects S.ref).ranges offset (offset + chunk.length)
        chunks := (s.uploadObjects S.ref).chunks + 1 } := if_pos rfl
  refine ⟨⟨⟨⟨mergeReceivedRange ranges offset (offset + chunk.length), chunks + 1, ?_⟩, hsound.only, ?_,
    hsound.private_⟩, phase, ?_, hclaimed⟩, ?_, ?_, Or.inl hother, rfl, fun _ hm => hm, ?_⟩
  · rw [hobject, hupload]
  · rw [hself]
    nofun
  · cases phase with
    | opened => exact ⟨hphase.1, ⟨_, hself⟩, hother.trans hphase.2.2.1, hphase.2.2.2⟩
    | pending =>
        refine ⟨hphase.1, ?_, hphase.2.2⟩
        rw [hother]
        exact hphase.2.1
    | done =>
        refine ⟨hphase.1, ⟨hphase.2.1.1, ?_⟩, hphase.2.2⟩
        rw [hother]
        exact hphase.2.1.2
    | failed => exact hphase
  · rw [hobject, hw]
    rfl
  · intro ho
    refine ⟨ho, fun content₀ hcontent₀ => ?_⟩
    unfold openForUpdate at hopen
    rw [hcontent₀] at hopen
    cases hopen
    rw [hself, hw]
    rfl
  · rintro ⟨hentry, hfile⟩
    refine ⟨hentry, ?_⟩
    rw [hother]
    exact hfile

/-- The rename takes the upload out of the table and leaves the registration to do. -/
theorem inv_finalized {n : Nat} {res : Except PyError (Except JSONResponse (String × StagedEntry))}
    (hinv : S.Inv tasks s) (hopen : S.Open s) (hfinal : StreamFinalized s S.key S.ref n res s')
    (hw : chunkWrites a = []) (hroute : a.request.route = .stageStreamFinalize) (hn : finalSize a.request = some n) :
    S.Advance a s s' ∧ ((∃ x, res = .error x) ∧ S.Inv tasks s' ∨
      (∃ response, res = .ok (.error response) ∧ ¬ response.IsSuccess) ∧ S.Inv tasks s' ∨
      res = .ok (.ok (S.version, S.entry)) ∧ S.Inv ((false, .registering) :: tasks) s') := by
  obtain ⟨hsound, phase, hphase, hclaimed⟩ := hinv
  obtain ⟨ranges, chunks, hupload⟩ := hsound.upload
  have hpath : (s.uploadObjects S.ref).path = S.upload.path := by rw [hupload]
  have hphase' : phase = .opened := by
    cases phase with
    | opened => rfl
    | pending => exact absurd hopen hphase.1
    | done => exact absurd hopen hphase.1
    | failed => exact absurd hopen hphase.1
  subst hphase'
  obtain ⟨-, ⟨content₀, hcontent₀⟩, hstaged, hunstaged⟩ := hphase
  have hnotDone : ¬ S.Done s := fun hdone => hunstaged _ _ hdone.1 rfl
  have hinv : S.Inv tasks s := ⟨hsound, .opened, ⟨hopen, ⟨content₀, hcontent₀⟩, hstaged, hunstaged⟩, hclaimed⟩
  -- the state after the upload left the table
  have hclosed : ∀ t : ServerState W A, ¬ S.Open (popUpload t S.key) := by
    intro t ho
    unfold Open popUpload at ho
    rw [Dict.get?_erase, if_pos rfl] at ho
    cases ho
  have honly : ∀ t : ServerState W A, ∀ ref, (popUpload t S.key).stageUploads.get? S.key = some ref → ref = S.ref := by
    intro t ref href
    unfold popUpload at href
    rw [Dict.get?_erase, if_pos rfl] at href
    cases href
  cases hfinal with
  | raised x => exact ⟨.refl hw s, Or.inl ⟨⟨x, rfl⟩, hinv⟩⟩
  | refused hstatus => exact ⟨.refl hw s, Or.inr (Or.inl ⟨⟨_, rfl, hstatus⟩, hinv⟩)⟩
  | @mismatch response hstatus =>
      obtain ⟨files, hfiles⟩ := filesOnly_unlinkOwned s (s.uploadObjects S.ref).path
      have hgone : (popUpload (cleanupStageUpload s (s.uploadObjects S.ref).path) S.key).files S.stagedPath =
          s.files S.stagedPath := by
        rw [hpath]
        exact files_unlinkOwned_of_ne s S.path_ne.symm
      have htemp : (popUpload (cleanupStageUpload s (s.uploadObjects S.ref).path) S.key).files S.upload.path ≠
          some .directory := by
        rw [hpath]
        change (unlinkOwned s S.upload.path).files S.upload.path ≠ _
        rcases files_unlinkOwned s S.upload.path S.upload.path with h | h
        · rw [h]
          exact hsound.temp
        · rw [h]
          nofun
      have hfailed : Claimed tasks .failed := ⟨hclaimed.1, fun t ht hr => nomatch hclaimed.2 t ht hr⟩
      refine ⟨⟨?_, fun ho => absurd ho (hclosed _), Or.inl hgone, ?_, ?_, fun h => absurd h hnotDone⟩,
        Or.inr (Or.inl ⟨⟨response, rfl, hstatus⟩, ⟨?_, honly _, htemp, ?_⟩, .failed, ⟨hclosed _, ?_⟩, hfailed⟩)⟩
      all_goals unfold cleanupStageUpload
      all_goals rw [hfiles]
      · rw [hw]
        rfl
      · rfl
      · exact fun _ hm => hm
      · exact ⟨ranges, chunks, hupload⟩
      · exact hsound.private_
      · exact hunstaged
  | @staged content stagedPath version hcomplete hfile hsize hp hv =>
      have hp' : stagedPath = S.stagedPath := by
        rw [hupload, S.stagedPath_eq] at hp
        exact (Option.some.inj hp).symm
      have hv' : version = S.version := by
        rw [hupload, S.version_eq] at hv
        exact (Option.some.inj hv).symm
      subst hp'
      subst hv'
      rw [hpath] at hfile
      refine ⟨⟨?_, fun ho => absurd ho (hclosed _), Or.inr (Or.inr ⟨hopen, hw, ?_, n, hroute, hn, hcomplete⟩), rfl,
        fun _ hm => hm, fun h => absurd h hnotDone⟩, Or.inr (Or.inr ⟨?_, ⟨⟨ranges, chunks, hupload⟩, honly _, ?_,
          hsound.private_⟩, .pending, ⟨hclosed _, ⟨content, ?_⟩, hunstaged⟩, ?_⟩)⟩
      · rw [hw]
        rfl
      · rw [hfile]
        exact files_setFile_self ..
      · rw [hupload]
        rfl
      · change (setFile (setFile s (s.uploadObjects S.ref).path none) S.stagedPath _).files S.upload.path ≠ _
        rw [files_setFile_of_ne _ _ S.path_ne, hpath, files_setFile_self]
        nofun
      · exact files_setFile_self ..
      · exact claimed_registering.2 ⟨rfl, hclaimed⟩

theorem inv_unregistered (hinv : S.Inv ((false, .registering) :: tasks) s) (hw : chunkWrites a = []) :
    S.Inv tasks (cleanupStagedFile s S.entry) ∧ S.Advance a s (cleanupStagedFile s S.entry) := by
  obtain ⟨hsound, phase, hphase, hclaimed⟩ := hinv
  obtain ⟨rfl, hothers⟩ := claimed_registering.1 hclaimed
  obtain ⟨hclosed, -, hunstaged⟩ := hphase
  have hstaged := files_cleanupStagedFile s S.entry S.stagedPath
  have htemp : (cleanupStagedFile s S.entry).files S.upload.path = s.files S.upload.path :=
    files_cleanupStagedFile_of_ne s S.path_ne
  obtain ⟨files, hfiles⟩ := filesOnly_cleanupStagedFile s S.entry
  rw [hfiles] at hstaged htemp ⊢
  refine ⟨⟨⟨hsound.upload, hsound.only, ?_, hsound.private_⟩, .failed, ⟨hclosed, hunstaged⟩, hothers.1,
    fun t ht hr => nomatch hothers.2 t ht hr⟩, ?_, fun ho => absurd ho hclosed, ?_, rfl, fun _ hm => hm, ?_⟩
  · rw [htemp]
    exact hsound.temp
  · rw [hw]
    rfl
  · rcases hstaged with h | h
    · exact Or.inl h
    · exact Or.inr (Or.inl h)
  · exact fun hdone => absurd rfl (hunstaged _ _ hdone.1)

/-- A registration accepted makes the upload the staged entry of its version. -/
theorem inv_registered (hinv : S.Inv ((false, .registering) :: tasks) s) (hw : chunkWrites a = []) :
    S.Inv ((false, .registered) :: tasks) (insertStaged (cleanupPrevious s S.version S.entry) S.version S.entry) ∧
      S.Advance a s (insertStaged (cleanupPrevious s S.version S.entry) S.version S.entry) ∧
      S.Done (insertStaged (cleanupPrevious s S.version S.entry) S.version S.entry) := by
  obtain ⟨hsound, phase, hphase, hclaimed⟩ := hinv
  obtain ⟨rfl, hothers⟩ := claimed_registering.1 hclaimed
  obtain ⟨hclosed, ⟨content, hcontent⟩, hunstaged⟩ := hphase
  have hstaged : (cleanupPrevious s S.version S.entry).files S.stagedPath = s.files S.stagedPath :=
    files_cleanupPrevious_of_ne s fun previous hprevious _ => (hunstaged _ previous hprevious).symm
  have htemp : (cleanupPrevious s S.version S.entry).files S.upload.path = s.files S.upload.path :=
    files_cleanupPrevious_of_ne s fun previous hprevious _ => (hsound.private_ _ previous hprevious).symm
  obtain ⟨files, hfiles⟩ := filesOnly_cleanupPrevious s S.version S.entry
  rw [hfiles] at hstaged htemp ⊢
  unfold insertStaged
  have hentries : ∀ v e, (s.stagedVersions.insert S.version S.entry).get? v = some e →
      v = S.version ∧ e = S.entry ∨ s.stagedVersions.get? v = some e := by
    intro v e he
    rw [Dict.get?_insert] at he
    split at he
    · rename_i hv
      exact Or.inl ⟨hv.symm, (Option.some.inj he).symm⟩
    · exact Or.inr he
  have hdone : S.Done { s with files := files, stagedVersions := s.stagedVersions.insert S.version S.entry } :=
    ⟨Dict.get?_insert_self .., content, hstaged.trans hcontent⟩
  refine ⟨⟨⟨hsound.upload, hsound.only, ?_, fun v e he => ?_⟩, .done, ⟨hclosed, hdone, fun v e he hpath => ?_⟩, ?_⟩,
    ⟨?_, fun ho => absurd ho hclosed, Or.inl hstaged, rfl, fun _ hm => hm, fun _ => hdone⟩, hdone⟩
  · rw [htemp]
    exact hsound.temp
  · rcases hentries v e he with ⟨-, rfl⟩ | he
    · exact S.path_ne.symm
    · exact hsound.private_ v e he
  · rcases hentries v e he with ⟨rfl, -⟩ | he
    · rfl
    · exact absurd hpath (hunstaged v e he)
  · refine ⟨?_, fun _ _ _ => rfl⟩
    rw [List.countP_cons_of_neg (by decide)]
    exact hothers.1
  · rw [hw]
    rfl

/-! ### Requests -/

variable (S) in
/-- What the end of a request promises: a finalize answered with success has registered the upload, here and, if
the server insists on its peers, wherever it relayed the request to. -/
def Post (request : Request) (r : Except PyError JSONResponse) (s : ServerState W A) : Prop :=
  request.route = .stageStreamFinalize → ∀ response, r = .ok response → response.IsSuccess →
    S.Done s ∧ (s.relayFailOnPeerError = true →
      ∀ target ∈ S.upload.relayTargets, streamFinalizeSend (requestFields request).1 target ∈ s.relayed)

variable (S W A) in
/-- The rules for the requests of the upload. -/
def protocol : Protocol (ServerState W A) Await Answer Request UploadClaim where
  inv := S.Inv
  inv_perm hperm h := h.perm hperm
  assumes _ _ := True
  guar := S.Advance

omit [Host] in
theorem Sound.relayTargets (h : S.Sound s) : (s.uploadObjects S.ref).relayTargets = S.upload.relayTargets := by
  obtain ⟨ranges, chunks, hupload⟩ := h.upload
  rw [hupload]
  rfl

variable {q : Request} {m : Moment (ServerState W A) Await Answer Request UploadClaim}

/-- The end of a request that has nothing left to do. -/
theorem served {r : Except PyError JSONResponse} (hheld : m.held = false) (hinv : S.Inv m.rest s)
    (hadvance : S.Advance m.action m.start s) (hpost : S.Post q r s) :
    Pool.Served (S.protocol W A) S.Post q m r s := ⟨hheld, hinv, hadvance, hpost⟩

omit [Host] in
theorem post_of_route {r : Except PyError JSONResponse} (h : q.route ≠ .stageStreamFinalize) : S.Post q r s :=
  fun hq => absurd hq h

omit [Host] in
theorem post_of_status {response : JSONResponse} (h : ¬ response.IsSuccess) : S.Post q (.ok response) s := by
  intro _ response' hr hs
  cases hr
  exact absurd hs h

variable [WeightModel W A]

theorem wp_stageStreamChunk (hroute : q.route = .stageStreamChunk)
    (hid : ∃ v, (queryFields q).get? "upload_id" = some v ∧ v.text = S.uploadId) (hinv : S.Inv tasks s) :
    (S.protocol W A).wp World q (stageStreamChunk q) ⟨.arrive q, s, false, tasks⟩ s
      (Pool.Served (S.protocol W A) S.Post q) := by
  have hpost : ∀ r (t : ServerState W A), S.Post q r t := fun r t => post_of_route (by rw [hroute]; decide)
  obtain ⟨v, hv, hid⟩ := hid
  have harrive : S.Advance (.arrive q : ServerAction) s s := .refl rfl s
  unfold stageStreamChunk
  dsimp only
  rw [hv]
  dsimp only
  rw [hid]
  refine wp_bind.2 (wp_ofExcept.2 ?_)
  cases hoffset : parseNonNegativeInt (queryFields q) "offset" with
  | error x => exact served rfl hinv harrive (hpost _ _)
  | ok offset =>
      cases offset with
      | error response => exact served rfl hinv harrive (hpost _ _)
      | ok offset =>
          refine wp_getState_bind.2 ?_
          cases hlookup : s.stageUploads.get? (stageStreamUploadKey S.uploadId) with
          | none => exact served rfl hinv harrive (hpost _ _)
          | some ref =>
              obtain rfl : ref = S.ref := hinv.1.only ref hlookup
              refine wp_bind.2 (wp_await quiet_readBody ⟨inv_idle.2 hinv, harrive⟩ fun s₁ a rest _ hinv₁ _ => ?_)
              have hinv₁ : S.Inv rest s₁ := inv_idle.1 hinv₁
              cases a with
              | error x => exact served rfl hinv₁ (.refl rfl s₁) (hpost _ _)
              | ok u =>
                  have hchunk : chunkWrites (.answer q (.operation .readBody) (.ok u)) = chunkOf q := if_pos hroute
                  unfold chunkOf at hchunk
                  rw [hoffset] at hchunk
                  dsimp only at hchunk ⊢
                  split
                  · rename_i hempty
                    rw [if_pos hempty] at hchunk
                    exact served rfl hinv₁ (.refl hchunk s₁) (hpost _ _)
                  · rename_i hne
                    rw [if_neg hne] at hchunk
                    refine wp_bind.2 (wp_writeChunk (fun x hx => ?_) fun content hcontent => ?_)
                    · obtain ⟨ranges, chunks, hupload⟩ := hinv₁.1.upload
                      have htemp := hinv₁.1.temp
                      rw [hupload] at hx
                      unfold openForUpdate at hx
                      split at hx
                      · cases hx
                      · rename_i hdir
                        exact absurd hdir htemp
                      · cases hx
                    · obtain ⟨hinv₂, hadvance⟩ := inv_chunkWritten hinv₁ hcontent hchunk
                      refine wp_getState_bind.2 (wp_bind.2 (wp_fanOutStreamChunk ⟨inv_idle.2 hinv₂, hadvance⟩ ?_ ?_))
                      · refine wp_getState_bind.2 ?_
                        split
                        · exact served rfl hinv₂ hadvance (hpost _ _)
                        · split <;> exact served rfl hinv₂ hadvance (hpost _ _)
                      · intro s₃ s₄ sends a rest₃ res _ hinv₃ _ hw
                        obtain ⟨relayed, rfl⟩ := world_gather hw
                        have hinv₄ := (inv_idle.1 hinv₃).relayed (s₃.relayed ++ relayed)
                        have hadvance₄ := (Advance.refl (S := S) (a := .answer q (.gather sends) a) rfl s₃).record relayed
                        cases res with
                        | error x => exact served rfl hinv₄ hadvance₄ (hpost _ _)
                        | ok stats =>
                            refine wp_getState_bind.2 ?_
                            split
                            · exact served rfl hinv₄ hadvance₄ (hpost _ _)
                            · split <;> exact served rfl hinv₄ hadvance₄ (hpost _ _)

omit [Host] [WeightModel W A] in
/-- What the statistics of the relayed finalize say if nobody failed. -/
theorem relayed_of_stats {fields : Fields} {stats : RelayStats} {operation : String}
    (hstats : StatsOf (S.upload.relayTargets.map (streamFinalizeSend fields)) stats s)
    (hnone : relayFailureResponse s operation stats = none) (hfail : s.relayFailOnPeerError = true)
    {target : String × String} (htarget : target ∈ S.upload.relayTargets) :
    streamFinalizeSend fields target ∈ s.relayed := by
  obtain ⟨b, hb⟩ := Option.isSome_iff_exists.1
    (hstats.1 (streamFinalizeSend fields target) (List.mem_map.2 ⟨target, htarget, rfl⟩))
  obtain rfl := relayFailureResponse_none hfail hnone hb
  obtain ⟨_, hmem, hpeer, hrelayed⟩ := hstats.2 _ hb
  obtain ⟨target', htarget', rfl⟩ := List.mem_map.1 hmem
  -- the uploads of the peers are a dictionary, so the peer determines the target
  have heq : target' = target := by
    change target'.1 = target.1 at hpeer
    unfold StageUpload.relayTargets at htarget htarget'
    split at htarget
    · rename_i hrelay
      rw [if_pos hrelay] at htarget'
      have h₁ := (Dict.mem_entries_iff _ _ _).1 htarget
      have h₂ := (Dict.mem_entries_iff _ _ _).1 htarget'
      rw [hpeer] at h₂
      exact Prod.ext hpeer (Option.some.inj (h₂.symm.trans h₁))
    · cases htarget
  exact heq ▸ hrelayed

theorem wp_stageStreamFinalize (hroute : q.route = .stageStreamFinalize)
    (hid : ∃ v, (requestFields q).1.get? "upload_id" = some v ∧ v.text = S.uploadId) (hinv : S.Inv tasks s) :
    (S.protocol W A).wp World q (stageStreamFinalize q) ⟨.arrive q, s, false, tasks⟩ s
      (Pool.Served (S.protocol W A) S.Post q) := by
  obtain ⟨v, hv, hid⟩ := hid
  have herror : ∀ x (t : ServerState W A), S.Post q (.error x) t := fun _ _ _ _ => nofun
  have hnotFound : ∀ (message : String) (t : ServerState W A), S.Post q (.ok (errorResponse 400 message)) t ∧
      S.Post q (.ok (errorResponse 404 message)) t := fun _ _ =>
    ⟨post_of_status (errorResponse_status (by decide)), post_of_status (errorResponse_status (by decide))⟩
  unfold stageStreamFinalize
  refine wp_bind.2 (wp_readRequestFields_arrive (r := UploadClaim.idle) (fun _ _ => inv_idle) hinv (.refl rfl s) trivial
    fun a s₁ rest res ha hinv₁ _ => ?_)
  have hw : chunkWrites a = [] := by
    rcases ha with rfl | ⟨x, rfl⟩
    · rfl
    · cases x with
      | error x => rfl
      | ok _ => exact if_neg (by rw [hroute]; decide)
  have hrequest : a.request = q := by
    rcases ha with rfl | ⟨x, rfl⟩ <;> rfl
  have hrefl : S.Advance a s₁ s₁ := .refl hw s₁
  cases res with
  | error x => exact served rfl hinv₁ hrefl (herror x _)
  | ok _ =>
      dsimp only [Except.map]
      rw [hv]
      dsimp only
      rw [hid]
      refine wp_bind.2 (wp_ofExcept.2 ?_)
      cases hsize : parseNonNegativeInt (requestFields q).1 "final_size" with
      | error x => exact served rfl hinv₁ hrefl (herror x _)
      | ok size =>
          cases size with
          | error response =>
              exact served rfl hinv₁ hrefl (post_of_status (parseNonNegativeInt_status hsize))
          | ok n =>
              have hn : finalSize a.request = some n := by
                unfold finalSize
                rw [hrequest, hsize]
              refine wp_getState_bind.2 ?_
              cases hlookup : s₁.stageUploads.get? (stageStreamUploadKey S.uploadId) with
              | none => exact served rfl hinv₁ hrefl (hnotFound _ _).2
              | some ref =>
                  obtain rfl : ref = S.ref := hinv₁.1.only ref hlookup
                  refine wp_bind.2 (wp_finalizeStream fun res s₂ hfinal => ?_)
                  obtain ⟨hadvance, hres⟩ := inv_finalized hinv₁ hlookup hfinal hw (by rw [hrequest, hroute]) hn
                  rcases hres with ⟨⟨x, rfl⟩, hinv₂⟩ | ⟨⟨response, rfl, hstatus⟩, hinv₂⟩ | ⟨rfl, hinv₂⟩
                  · exact served rfl hinv₂ hadvance (herror x _)
                  · exact served rfl hinv₂ hadvance (post_of_status hstatus)
                  · dsimp only
                    refine wp_bind.2 (wp_registerStagedVersion rfl ⟨hinv₂, hadvance⟩ ?_ ?_)
                    · intro s₃ rest₃ response hinv₃ _ hvalid
                      obtain ⟨hinv₄, hadvance₄⟩ := inv_unregistered hinv₃ (a := .acquire q) rfl
                      exact served rfl hinv₄ hadvance₄ (post_of_status (validateStageMetadata_status hvalid))
                    · intro s₃ rest₃ hinv₃ _
                      obtain ⟨hinv₄, hadvance₄, hdone₄⟩ := inv_registered hinv₃ (a := .acquire q) rfl
                      have htargets := hinv₄.1.relayTargets
                      refine wp_getState_bind.2 (wp_bind.2 (wp_fanOutStreamFinalize ⟨hinv₄, hadvance₄⟩ ?_ ?_))
                      · intro hnil
                        rw [htargets] at hnil
                        refine wp_getState_bind.2 ?_
                        split
                        · rename_i hfailure
                          exact served rfl hinv₄.registered.1 hadvance₄
                            (post_of_status (relayFailureResponse_status hfailure))
                        · refine served rfl hinv₄.registered.1 hadvance₄ fun _ _ _ _ => ⟨hdone₄, fun _ target ht => ?_⟩
                          rw [hnil] at ht
                          cases ht
                      · intro s₅ s₆ a₆ rest₆ res _ hinv₅ hw₆ _ hstats
                        rw [htargets] at hstats
                        obtain ⟨relayed, rfl⟩ := world_gather hw₆
                        have hinv₆ := hinv₅.registered.1.relayed (s₅.relayed ++ relayed)
                        have hadvance₆ := (Advance.refl (S := S) (a := .answer q (.gather _) a₆) rfl s₅).record relayed
                        cases res with
                        | error x => exact served rfl hinv₆ hadvance₆ (herror x _)
                        | ok stats =>
                            refine wp_getState_bind.2 ?_
                            dsimp only
                            split
                            · rename_i hfailure
                              exact served rfl hinv₆ hadvance₆
                                (post_of_status (relayFailureResponse_status hfailure))
                            · rename_i hnone
                              exact served rfl hinv₆ hadvance₆ fun _ _ _ _ => ⟨hinv₅.registered.2, fun hfail _ ht =>
                                relayed_of_stats (hstats stats rfl) hnone hfail ht⟩

/-! ### Runs -/

variable (S) in
/-- The upload as `/stage_stream_init` leaves it. -/
structure Opened (s : ServerState W A) : Prop where
  upload : s.uploadObjects S.ref = S.upload
  opened : S.Open s
  temp : s.files S.upload.path = some (.file [])
  staged : s.files S.stagedPath = none
  unstaged : S.Unstaged s
  private_ : ∀ v e, s.stagedVersions.get? v = some e → e.path ≠ S.upload.path

variable (S W A) in
/-- Any number of chunk and finalize requests of the upload, interleaved at their awaits. -/
def pool : Pool (ServerState W A) Await Answer PyError JSONResponse Request where
  init := S.Opened
  admits := S.Admits
  program := handle
  world := World

theorem pool_follows : (S.pool W A).Follows (S.protocol W A) S.Post := by
  rintro q (⟨hroute, hid⟩ | ⟨hroute, hid⟩) s tasks hinv -
  · change (S.protocol W A).wp World q (handle q) _ s _
    unfold handle
    rw [hroute]
    exact wp_stageStreamChunk hroute hid hinv
  · change (S.protocol W A).wp World q (handle q) _ s _
    unfold handle
    rw [hroute]
    exact wp_stageStreamFinalize hroute hid hinv

omit [Host] [WeightModel W A] in
theorem Opened.inv (h : S.Opened s) : S.Inv [] s := by
  refine ⟨⟨⟨S.upload.ranges, S.upload.chunks, h.upload⟩, fun ref href => ?_, ?_, h.private_⟩, .opened,
    ⟨h.opened, ⟨[], h.temp⟩, h.staged, h.unstaged⟩, rfl, nofun⟩
  · exact Option.some.inj (href.symm.trans h.opened)
  · rw [h.temp]
    nofun

end StreamSession

/-- The chunks written in the course of a run, oldest first. -/
def runWrites [Host] (ls : List ServerLabel) : List ChunkWrite := ls.flatMap fun l => chunkWrites l.action

section Runs

variable {W A : Type} [WeightModel W A] [Host] {S : StreamSession} {s : ServerState W A} {c : ServerConfig W A}
  {ls : List ServerLabel}

/-- The staged file was assembled by a finalize request that named its size and found it complete. -/
def StagedBy (ls : List ServerLabel) (content : Bytes) : Prop :=
  ∃ l₁ l l₂ n, ls = l₁ ++ l :: l₂ ∧ l.action.request.route = .stageStreamFinalize ∧
    finalSize l.action.request = some n ∧ uploadComplete (writtenRanges [] (runWrites l₁)) n = true ∧
    content = applyWrites [] (runWrites l₁)

omit [WeightModel W A] in
theorem StagedBy.snoc {content : Bytes} (h : StagedBy ls content) (l : ServerLabel) : StagedBy (ls ++ [l]) content := by
  obtain ⟨l₁, l₀, l₂, n, rfl, h⟩ := h
  exact ⟨l₁, l₀, l₂ ++ [l], n, by simp, h⟩

/-- The invariant of a run. -/
structure Assembling (S : StreamSession) (ls : List ServerLabel) (c : ServerConfig W A) : Prop where
  kept : Pool.Kept (S.protocol W A) World S.Post c
  ranges : (c.shared.uploadObjects S.ref).ranges = writtenRanges [] (runWrites ls)
  opened : S.Open c.shared → c.shared.files S.upload.path = some (.file (applyWrites [] (runWrites ls)))
  staged : ∀ content, c.shared.files S.stagedPath = some (.file content) → StagedBy ls content

theorem StreamSession.Opened.assembling (h : S.Opened s) : Assembling S [] (⟨s, []⟩ : ServerConfig W A) := by
  refine ⟨Pool.Kept.start h.inv, ?_, fun _ => h.temp, fun content hcontent => ?_⟩
  · change (s.uploadObjects S.ref).ranges = []
    rw [h.upload]
    exact S.ranges_eq
  · rw [h.staged] at hcontent
    cases hcontent

theorem Assembling.step {c' : ServerConfig W A} {l : ServerLabel} (h : Assembling S ls c)
    (hstep : (S.pool W A).Step c l c') : Assembling S (ls ++ [l]) c' := by
  obtain ⟨hkept, hadvance, -⟩ := h.kept.step S.pool_follows trivial hstep
  have hwrites : runWrites (ls ++ [l]) = runWrites ls ++ chunkWrites l.action := by
    unfold runWrites
    rw [List.flatMap_append, List.flatMap_singleton]
  refine ⟨hkept, ?_, fun hopen => ?_, fun content hcontent => ?_⟩
  · rw [hadvance.ranges, h.ranges, hwrites]
    exact List.foldl_append.symm
  · obtain ⟨hopen₀, hfile⟩ := hadvance.opened hopen
    rw [hfile _ (h.opened hopen₀), hwrites]
    exact congrArg (fun b => some (FileNode.file b)) List.foldl_append.symm
  · rcases hadvance.staged with hsame | hnone | ⟨hopen, -, hfile, n, hroute, hn, hcomplete⟩
    · rw [hsame] at hcontent
      exact (h.staged content hcontent).snoc l
    · rw [hnone] at hcontent
      cases hcontent
    · rw [hfile, h.opened hopen] at hcontent
      rw [h.ranges] at hcomplete
      cases hcontent
      exact ⟨ls, l, [], n, rfl, hroute, hn, hcomplete, rfl⟩

theorem assembling_run (hs : S.Opened s) (hrun : (S.pool W A).system.Run ⟨s, []⟩ ls c) : Assembling S ls c := by
  induction hrun with
  | nil => exact hs.assembling
  | snoc _ hstep ih => exact ih.step hstep

/-- **Assembly.** In every state of every run the recorded ranges are in normal form and stand for the bytes
written; the check passes exactly when these are the bytes below the total size; and a staged file, which a
registered entry always has, is complete and holds at each position the byte of the last chunk that covers it. -/
theorem streamUploadAssembly (hs : S.Opened s) (hrun : (S.pool W A).system.Run ⟨s, []⟩ ls c) :
    (Normal (c.shared.uploadObjects S.ref).ranges ∧
      ∀ i, Covers (c.shared.uploadObjects S.ref).ranges i ↔ Written (runWrites ls) i) ∧
    (∀ n, uploadComplete (c.shared.uploadObjects S.ref).ranges n = true ↔ ∀ i, Written (runWrites ls) i ↔ i < n) ∧
    (∀ v entry, c.shared.stagedVersions.get? v = some entry → entry.path = S.stagedPath →
      ∃ content, c.shared.files S.stagedPath = some (.file content)) ∧
    ∀ content, c.shared.files S.stagedPath = some (.file content) → ∃ l₁ l l₂ n, ls = l₁ ++ l :: l₂ ∧
      l.action.request.route = .stageStreamFinalize ∧ finalSize l.action.request = some n ∧
      (∀ i, Written (runWrites l₁) i ↔ i < n) ∧ content.length = n ∧
      ∀ i, i < n → content[i]? = lastByte (runWrites l₁) i := by
  have h := assembling_run hs hrun
  rw [h.ranges]
  refine ⟨writtenRanges_spec _, uploadComplete_writtenRanges _, fun v entry hentry hpath => ?_, fun content hcontent => ?_⟩
  · obtain ⟨_, -, -, phase, hphase, -⟩ := h.kept.inv
    cases phase with
    | opened => exact absurd hpath (hphase.2.2.2 v entry hentry)
    | pending => exact absurd hpath (hphase.2.2 v entry hentry)
    | done => exact hphase.2.1.2
    | failed => exact absurd hpath (hphase.2 v entry hentry)
  · obtain ⟨l₁, l, l₂, n, hls, hroute, hn, hdone, rfl⟩ := h.staged content hcontent
    have hwritten := (uploadComplete_writtenRanges _ n).1 hdone
    exact ⟨l₁, l, l₂, n, hls, hroute, hn, hwritten, length_applyWrites_of_complete hwritten,
      fun i hi => ((applyWrites_spec _).1 i ((hwritten i).2 hi)).2⟩

end Runs

/-! ### Two overlapping chunks -/

section Example

attribute [local instance] asciiHost listWeights

/-- The upload of version `"1"` under the id `"0"`. -/
def uploadSession : StreamSession where
  uploadId := "0"
  ref := 0
  upload :=
    { path := ⟨"", ["staging", "0_full_w.stream.part"]⟩, filename := "w", mode := .full, baseVersion := none,
      ranges := [], chunks := 0, totalSize := none, sha256 := none,
      stagedPath := some ⟨"", ["staging", "0_full_w"]⟩, version := some "1", relayRequested := some true,
      relayUploads := some ∅ }
  stagedPath := ⟨"", ["staging", "0_full_w"]⟩
  version := "1"
  stagedPath_eq := rfl
  version_eq := rfl
  path_ne := by decide
  ranges_eq := rfl

def uploadChunk (offset : String) (chunk : Bytes) : Request :=
  ⟨.stageStreamChunk, [("upload_id", "0"), ("offset", offset)], .raw chunk⟩

def finalizeUpload : Request :=
  ⟨.stageStreamFinalize, [], .json (some [("upload_id", some (.str "0")), ("final_size", some (.int 3))])⟩

/-- A fresh server without files, and the same after an upload is opened, after each chunk, and after `finalizeUpload`. -/
def emptyState (peers : List String) : ServerState (List Nat) Nat := { freshState peers with files := fun _ => none }

def openedState : ServerState (List Nat) Nat :=
  openUpload (setFile { emptyState [] with uuids := 1 } uploadSession.upload.path (some (.file []))) "stream:0"
    uploadSession.upload

def firstState : ServerState (List Nat) Nat :=
  setUpload (setFile openedState uploadSession.upload.path (some (.file [0, 7, 8]))) 0
    { uploadSession.upload with ranges := [(1, 3)], chunks := 1 }

def chunkState : ServerState (List Nat) Nat :=
  setUpload (setFile firstState uploadSession.upload.path (some (.file [5, 6, 8]))) 0
    { uploadSession.upload with ranges := [(0, 3)], chunks := 2 }

def assembledState : ServerState (List Nat) Nat :=
  insertStaged (popUpload (setFile (setFile chunkState uploadSession.upload.path none) uploadSession.stagedPath
    (some (.file [5, 6, 8]))) "stream:0") "1" uploadSession.entry

theorem exec_firstChunk : (handle (uploadChunk "1" [7, 8])).exec obliging false openedState =
    some (firstState, .ok (ok (.streamChunk "0" "1" .full 2 ∅))) := by
  have hmerge : mergeReceivedRange [] 1 3 = [(1, 3)] := by simp [mergeReceivedRange, mergeStep]
  have hwritten : chunkWritten openedState 0 1 [7, 8] [] = firstState := by
    change setUpload _ 0 { uploadSession.upload with ranges := mergeReceivedRange [] 1 3, chunks := 1 } = _
    rw [hmerge]
    rfl
  rw [← hwritten]
  exact congrArg (fun r => some (_, Except.ok (ok (.streamChunk "0" "1" .full (receivedBytes r) ∅)))) hmerge

theorem exec_secondChunk : (handle (uploadChunk "0" [5, 6])).exec obliging false firstState =
    some (chunkState, .ok (ok (.streamChunk "0" "1" .full 3 ∅))) := by
  have hmerge : mergeReceivedRange [(1, 3)] 0 2 = [(0, 3)] := by
    simp [mergeReceivedRange, mergeStep, List.mergeSort, List.MergeSort.Internal.splitInTwo, rangeLe]
  have hwritten : chunkWritten firstState 0 0 [5, 6] [0, 7, 8] = chunkState := by
    change setUpload _ 0 { uploadSession.upload with ranges := mergeReceivedRange [(1, 3)] 0 2, chunks := 2 } = _
    rw [hmerge]
    rfl
  rw [← hwritten]
  exact congrArg (fun r => some (_, Except.ok (ok (.streamChunk "0" "1" .full (receivedBytes r) ∅)))) hmerge

theorem exec_finalizeUpload : (handle finalizeUpload).exec obliging false chunkState =
    some (assembledState, .ok (ok (.staged "1" .full "staging/0_full_w" ∅))) := rfl

theorem opened_openedState : uploadSession.Opened openedState :=
  ⟨rfl, rfl, rfl, rfl, fun _ _ he => (by cases he), fun _ _ he => (by cases he)⟩

theorem streamUploadAssembly_overlap : ∃ ls content,
    (uploadSession.pool (List Nat) Nat).system.Run ⟨openedState, []⟩ ls ⟨assembledState, []⟩ ∧
      assembledState.files uploadSession.stagedPath = some (.file content) ∧ ∃ l₁, l₁ <+: ls ∧
        ∀ i, i < content.length → content[i]? = lastByte (runWrites l₁) i := by
  have hchunk : ∀ offset chunk, uploadSession.Admits (uploadChunk offset chunk) := fun _ _ =>
    Or.inl ⟨rfl, .str "0", rfl, rfl⟩
  obtain ⟨ls₁, c₁, a₁, hrun₁, hlast₁, -⟩ := Pool.serve_run (P := uploadSession.pool (List Nat) Nat) world_obliging
    (hchunk _ _) exec_firstChunk
  obtain ⟨ls₂, c₂, a₂, hrun₂, hlast₂, -⟩ := Pool.serve_run (P := uploadSession.pool (List Nat) Nat) world_obliging
    (hchunk _ _) exec_secondChunk
  obtain ⟨ls₃, c₃, a₃, hrun₃, hlast₃, -⟩ := Pool.serve_run (P := uploadSession.pool (List Nat) Nat) world_obliging
    (q := finalizeUpload) (Or.inr ⟨rfl, .str "0", rfl, rfl⟩) exec_finalizeUpload
  have hrun := ((hrun₁.snoc hlast₁).append (hrun₂.snoc hlast₂)).append (hrun₃.snoc hlast₃)
  obtain ⟨-, -, hfile, hbytes⟩ := streamUploadAssembly opened_openedState hrun
  obtain ⟨content, hcontent⟩ := hfile "1" uploadSession.entry rfl rfl
  obtain ⟨l₁, l, l₂, n, hls, -, -, -, hlen, hlast⟩ := hbytes content hcontent
  exact ⟨_, content, hrun, hcontent, l₁, ⟨l :: l₂, hls.symm⟩, fun i hi => hlast i (hlen ▸ hi)⟩

end Example

end AuroraRl.Server
