import AuroraRl.Server.RelayCommit
import AuroraRl.Server.StreamUpload

/-!
# A file staged on a seed is staged on every peer

* `filePool` : the requests of one upload, all of them about one client file;
* `NetStep` : a seed and its peers, with requests and answers lost, delayed or repeated at will;
* `relayStagingAgreement` : a finalize answered with 200 leaves the client's file staged on the seed and on every
  peer.
-/

namespace AuroraRl.Server
open Coroutine Transition

section Staging

variable {W A : Type} [WeightModel W A] [Host]

/-! ## One server -/

/-- The chunks are slices of the file, and a finalize request names its size. -/
def FromFile (content : Bytes) (request : Request) : Prop :=
  (request.route = .stageStreamChunk → ∀ w ∈ chunkOf request, w.SliceOf content) ∧
    (request.route = .stageStreamFinalize → ∀ n, finalSize request = some n → n = content.length)

/-- The version and mode are staged with this very content. -/
def Holds (version : String) (mode : WeightUpdateMode) (content : Bytes) (s : ServerState W A) : Prop :=
  ∃ entry, s.stagedVersions.get? version = some entry ∧ entry.mode = mode ∧
    s.files entry.path = some (.file content)

namespace StreamSession

variable {S : StreamSession} {content : Bytes} {s : ServerState W A} {c c' : ServerConfig W A} {ls : List ServerLabel}
  {l : ServerLabel}

variable (S W) in
/-- The requests of the upload that are about one file. -/
def filePool (A : Type) [WeightModel W A] (content : Bytes) :
    Pool (ServerState W A) Await Answer PyError JSONResponse Request :=
  (S.pool W A).restrict (FromFile content)

omit [WeightModel W A] in
theorem chunkWrites_of_fromFile {a : ServerAction} (h : FromFile content a.request) :
    ∀ w ∈ chunkWrites a, w.SliceOf content := by
  intro w hw
  unfold chunkWrites at hw
  split at hw
  · split at hw
    · rename_i hroute
      exact h.1 hroute w hw
    · cases hw
  · cases hw

theorem filePool_step (hs : S.Opened s) (hrun : (S.filePool W A content).system.Run ⟨s, []⟩ ls c)
    (hstep : (S.filePool W A content).Step c l c') :
    S.Advance l.action c.shared c'.shared ∧
      ∀ res, l.result = some res → S.Post l.action.request res c'.shared :=
  ((assembling_run hs (Pool.run_of_restrict hrun)).kept.step pool_follows trivial hstep.of_restrict).2

theorem holds_of_done (hs : S.Opened s) (hrun : (S.filePool W A content).system.Run ⟨s, []⟩ ls c)
    (hdone : S.Done c.shared) : Holds S.version S.upload.mode content c.shared := by
  obtain ⟨hentry, staged, hstaged⟩ := hdone
  obtain ⟨l₁, l, l₂, n, rfl, hroute, hn, hcomplete, rfl⟩ :=
    (assembling_run hs (Pool.run_of_restrict hrun)).staged staged hstaged
  have hadmitted := (Pool.run_admitted (fun _ ht => absurd ht List.not_mem_nil) hrun).2
  have hsize : n = content.length :=
    (hadmitted l (List.mem_append_right l₁ List.mem_cons_self)).2.2 hroute n hn
  have hslices : ∀ w ∈ runWrites l₁, w.SliceOf content := by
    intro w hw
    obtain ⟨l', hl', hw⟩ := List.mem_flatMap.1 hw
    exact chunkWrites_of_fromFile (hadmitted l' (List.mem_append_left _ hl')).2 w hw
  have hwritten := (uploadComplete_writtenRanges _ n).1 hcomplete
  rw [hsize] at hwritten
  rw [applyWrites_of_slices hslices hwritten] at hstaged
  exact ⟨S.entry, hentry, rfl, hstaged⟩

end StreamSession

/-! ## A seed and its peers -/

section Net

variable {ι : Type} [DecidableEq ι] (host : String → ι) (read : PurePath → Bytes)
  (seedPool : Pool (ServerState W A) Await Answer PyError JSONResponse Request)
  (peerPool : ι → Pool (ServerState W A) Await Answer PyError JSONResponse Request)

/-- A request may reach a peer at any time, any number of times or never, and its answer may get lost: a send of
the seed comes back well only if the peer has answered all its requests with success. -/
inductive NetStep : RelayNet W A ι → RelayLabel ι → RelayNet W A ι → Prop
  | seed {net : RelayNet W A ι} {l : ServerLabel} {seed : ServerConfig W A} (hstep : seedPool.Step net.seed l seed)
      (hrelayed : ∀ send ∈ seed.shared.relayed, send ∈ net.seed.shared.relayed ∨ Delivered host read net send) :
      NetStep net (.seed l) { net with seed := seed }
  | peer {net : RelayNet W A ι} {i : ι} {l : ServerLabel} {c : ServerConfig W A} {answered : List (ι × Request)}
      (hstep : (peerPool i).Step (net.peer i) l c)
      (hanswered : answered = net.answered ∨ (Succeeds l ∧ answered = net.answered ++ [(i, l.action.request)])) :
      NetStep net (.peer i l) { net with peer := Function.update net.peer i c, answered := answered }

variable (S : StreamSession) (T : ι → StreamSession)

/-- The upload is open on the seed and, under the ids it was given there, on every peer. -/
structure StagingStart (net : RelayNet W A ι) : Prop where
  seed : net.seed.tasks = [] ∧ S.Opened net.seed.shared
  peer : ∀ i, (net.peer i).tasks = [] ∧ (T i).Opened (net.peer i).shared
  targets : ∀ p ∈ relayPeers net.seed.shared, ∃ uploadId, (p, uploadId) ∈ S.upload.relayTargets
  agree : ∀ target ∈ S.upload.relayTargets, (T (peerNode host target.1)).version = S.version ∧
    (T (peerNode host target.1)).upload.mode = S.upload.mode
  fail : net.seed.shared.relayFailOnPeerError = true
  relayed : net.seed.shared.relayed = []
  answered : net.answered = []

/-- The seed and the peers, serving requests about one file. -/
def stagingNet (W A : Type) [WeightModel W A] (content : Bytes) : System (RelayNet W A ι) (RelayLabel ι) where
  init := StagingStart host S T
  step := NetStep host read (S.filePool W A content) fun i => (T i).filePool W A content

/-- The invariant of a run from `net₀`. -/
structure StagingInv (content : Bytes) (net₀ net : RelayNet W A ι) : Prop where
  seed : ∃ ls, (S.filePool W A content).system.Run ⟨net₀.seed.shared, []⟩ ls net.seed
  peer : ∀ i, ∃ ls, ((T i).filePool W A content).system.Run ⟨(net₀.peer i).shared, []⟩ ls (net.peer i)
  fail : net.seed.shared.relayFailOnPeerError = true
  answered : ∀ i q, (i, q) ∈ net.answered → q.route = .stageStreamFinalize → (T i).Done (net.peer i).shared
  relayed : ∀ send ∈ net.seed.shared.relayed, Delivered host read net send

variable {host read S T} {content : Bytes} {net₀ net net' : RelayNet W A ι} {ls : List (RelayLabel ι)}

omit [DecidableEq ι] in
theorem StagingStart.inv (h : StagingStart host S T net) : StagingInv host read S T content net net := by
  refine ⟨⟨[], ?_⟩, fun i => ⟨[], ?_⟩, h.fail, fun i q hq => ?_, fun send hsend => ?_⟩
  · obtain ⟨⟨s, tasks⟩, peer, answered⟩ := net
    obtain rfl : tasks = [] := h.seed.1
    exact .nil
  · generalize hc : net.peer i = c
    obtain ⟨s, tasks⟩ := c
    obtain rfl : tasks = [] := by simpa [hc] using (h.peer i).1
    exact .nil
  · rw [h.answered] at hq
    cases hq
  · rw [h.relayed] at hsend
    cases hsend

theorem StagingInv.step {l : RelayLabel ι} (h₀ : StagingStart host S T net₀)
    (h : StagingInv host read S T content net₀ net)
    (hstep : (stagingNet host read S T W A content).step net l net') :
    StagingInv host read S T content net₀ net' := by
  cases hstep with
  | @seed l seed hst hrelayed =>
      obtain ⟨ls, hrun⟩ := h.seed
      obtain ⟨hadvance, -⟩ := StreamSession.filePool_step h₀.seed.2 hrun hst
      refine ⟨⟨_, hrun.snoc hst⟩, h.peer, hadvance.fail.trans h.fail, h.answered, fun send hsend => ?_⟩
      rcases hrelayed send hsend with hold | hnew
      · exact h.relayed send hold
      · exact hnew
  | @peer i l c answered hst hanswered =>
      obtain ⟨ls, hrun⟩ := h.peer i
      obtain ⟨hadvance, hpost⟩ := StreamSession.filePool_step (h₀.peer i).2 hrun hst
      have hdone : ∀ j, (T j).Done (net.peer j).shared → (T j).Done (Function.update net.peer i c j).shared := by
        intro j hj
        by_cases hij : j = i
        · subst hij
          rw [Function.update_self]
          exact hadvance.done hj
        · rw [Function.update_of_ne hij]
          exact hj
      refine ⟨h.seed, fun j => ?_, h.fail, fun j q hq hroute => ?_, fun send hsend post hmem => ?_⟩
      · dsimp only
        by_cases hij : j = i
        · subst hij
          rw [Function.update_self]
          exact ⟨_, hrun.snoc hst⟩
        · rw [Function.update_of_ne hij]
          exact h.peer j
      · rcases hanswered with rfl | ⟨⟨response, hres, hsuccess⟩, rfl⟩
        · exact hdone j (h.answered j q hq hroute)
        · rcases List.mem_append.1 hq with hq | hq
          · exact hdone j (h.answered j q hq hroute)
          · obtain ⟨rfl, rfl⟩ := Prod.mk.inj (List.mem_singleton.1 hq)
            change (T j).Done (Function.update net.peer j c j).shared
            rw [Function.update_self]
            exact (hpost _ hres hroute response rfl hsuccess).1
      · have hmem' := h.relayed send hsend post hmem
        rcases hanswered with rfl | ⟨-, rfl⟩
        · exact hmem'
        · exact List.mem_append_left _ hmem'

theorem StagingInv.run (h₀ : StagingStart host S T net₀)
    (hrun : (stagingNet host read S T W A content).Run net₀ ls net) :
    StagingInv host read S T content net₀ net :=
  hrun.preserves (fun _ _ _ h hst => h.step h₀ hst) h₀.inv

/-- **Relayed staging.** Whenever the seed answers a finalize with 200, the seed and every peer hold a staged entry
for the version and mode of the upload, and its bytes are the client's file. -/
theorem relayStagingAgreement (h₀ : StagingStart host S T net₀)
    (hrun : (stagingNet host read S T W A content).Run net₀ ls net) {l : ServerLabel} {response : JSONResponse}
    (hstep : (stagingNet host read S T W A content).step net (.seed l) net')
    (hroute : l.action.request.route = .stageStreamFinalize) (hres : l.result = some (.ok response))
    (hcode : response.statusCode = 200) :
    Holds S.version S.upload.mode content net'.seed.shared ∧
      ∀ p ∈ relayPeers net₀.seed.shared, Holds S.version S.upload.mode content (net'.peer (peerNode host p)).shared := by
  have hinv := StagingInv.run h₀ hrun
  have hinv' := hinv.step h₀ hstep
  cases hstep with
  | seed hst hrelayed =>
      obtain ⟨ls, hseed⟩ := hinv.seed
      obtain ⟨hadvance, hpost⟩ := StreamSession.filePool_step h₀.seed.2 hseed hst
      have hsuccess : response.IsSuccess := by
        unfold JSONResponse.IsSuccess
        omega
      obtain ⟨hdone, hsends⟩ := hpost _ hres hroute response rfl hsuccess
      refine ⟨StreamSession.holds_of_done h₀.seed.2 (hseed.snoc hst) hdone, fun p hp => ?_⟩
      obtain ⟨uploadId, htarget⟩ := h₀.targets p hp
      have hdelivered := hinv'.relayed _ (hsends hinv'.fail _ htarget) _ List.mem_cons_self
      have hpeer := hinv'.answered _ _ hdelivered rfl
      obtain ⟨ls', hpeerRun⟩ := hinv'.peer (peerNode host p)
      obtain ⟨hversion, hmode⟩ := h₀.agree _ htarget
      have hholds := StreamSession.holds_of_done (h₀.peer _).2 hpeerRun hpeer
      rw [hversion, hmode] at hholds
      exact hholds

theorem stagingNet_peer {w : ServerState W A → (e : Await) → Answer e × ServerState W A}
    (hw : ∀ s e, World s e (w s e).1 (w s e).2) {seed : ServerConfig W A} {peer : ι → ServerConfig W A}
    {answered : List (ι × Request)} (hrun₀ : (stagingNet host read S T W A content).Run net₀ ls ⟨seed, peer, answered⟩)
    {i : ι} {q : Request} {s s' : ServerState W A} {response : JSONResponse} (hpeer : peer i = ⟨s, []⟩)
    (hq : (T i).Admits q ∧ FromFile content q) (h : (handle q).exec w false s = some (s', .ok response))
    (hresponse : response.IsSuccess) : ∃ ls, (stagingNet host read S T W A content).Run net₀ ls
      ⟨seed, Function.update peer i ⟨s', []⟩, answered ++ [(i, q)]⟩ := by
  obtain ⟨ls₁, c, a, hrun, hlast, rfl⟩ := Pool.serve_run (P := (T i).filePool W A content) hw hq h
  have hstep : ∀ {l : ServerLabel} {c c' : ServerConfig W A} {answered' : List (ι × Request)},
      ((T i).filePool W A content).Step c l c' →
      (answered' = answered ∨ (Succeeds l ∧ answered' = answered ++ [(i, l.action.request)])) →
      (stagingNet host read S T W A content).step ⟨seed, Function.update peer i c, answered⟩ (.peer i l)
        ⟨seed, Function.update peer i c', answered'⟩ := by
    intro l c c' answered' hst hanswered
    have hst' : ((T i).filePool W A content).Step (Function.update peer i c i) l c' := by
      rw [Function.update_self]
      exact hst
    have hnet : (stagingNet host read S T W A content).step ⟨seed, Function.update peer i c, answered⟩ (.peer i l) _ :=
      NetStep.peer hst' hanswered
    rw [Function.update_idem] at hnet
    exact hnet
  have hlift : ∃ ls, (stagingNet host read S T W A content).Run net₀ ls ⟨seed, Function.update peer i c, answered⟩ := by
    clear hlast
    induction hrun with
    | nil =>
        rw [← hpeer, Function.update_eq_self]
        exact ⟨ls, hrun₀⟩
    | snoc _ hst ih =>
        obtain ⟨ls, hrun⟩ := ih
        exact ⟨_, hrun.snoc (hstep hst (Or.inl rfl))⟩
  obtain ⟨ls, hrun⟩ := hlift
  exact ⟨_, hrun.snoc (hstep hlast (Or.inr ⟨⟨response, rfl, hresponse⟩, rfl⟩))⟩

/-- The seed may run as long as the peers have answered all that it relays. -/
theorem stagingNet_seed {s : ServerState W A} (hs : S.Opened s) {peer : ι → ServerConfig W A}
    {answered : List (ι × Request)} {c : ServerConfig W A} {ls₁ : List ServerLabel}
    (hseed : (S.filePool W A content).system.Run ⟨s, []⟩ ls₁ c)
    (hrun : (stagingNet host read S T W A content).Run net₀ ls ⟨⟨s, []⟩, peer, answered⟩)
    (hdelivered : ∀ seed, ∀ send ∈ c.shared.relayed, Delivered host read ⟨seed, peer, answered⟩ send) :
    ∃ ls, (stagingNet host read S T W A content).Run net₀ ls ⟨c, peer, answered⟩ := by
  induction hseed with
  | nil => exact ⟨ls, hrun⟩
  | snoc hseed hst ih =>
      obtain ⟨hadvance, -⟩ := StreamSession.filePool_step hs hseed hst
      obtain ⟨ls, hnet⟩ := ih fun seed send hsend => hdelivered seed send (hadvance.relayed hsend)
      exact ⟨_, hnet.snoc (NetStep.seed hst fun send hsend => Or.inr (hdelivered _ send hsend))⟩

end Net

end Staging

/-! ### A seed and one peer -/

section Example

attribute [local instance] asciiHost listWeights

/-- The upload on the seed, known to the peer under the same id. -/
def relaySession : StreamSession where
  uploadId := "0"
  ref := 0
  upload := { uploadSession.upload with relayUploads := some (.ofList [("p", "0")]) }
  stagedPath := uploadSession.stagedPath
  version := "1"
  stagedPath_eq := rfl
  version_eq := rfl
  path_ne := by decide
  ranges_eq := rfl

def relayOpened : ServerState (List Nat) Nat :=
  setUpload { openedState with relayEnabled := true, relayPeers := ["p"] } 0 relaySession.upload

/-- The state after the one chunk of a file, and after the finalize. -/
def fileState (upload : StageUpload) (s : ServerState (List Nat) Nat) : ServerState (List Nat) Nat :=
  setUpload (setFile s upload.path (some (.file [5, 6, 8]))) 0 { upload with ranges := [(0, 3)], chunks := 1 }

def stagedFile (s : ServerState (List Nat) Nat) : ServerState (List Nat) Nat :=
  insertStaged (popUpload (setFile (setFile s uploadSession.upload.path none) uploadSession.stagedPath
    (some (.file [5, 6, 8]))) "stream:0") "1" uploadSession.entry

def wholeChunk : Request := uploadChunk "0" [5, 6, 8]

/-- `finalizeUpload` as the seed relays it. -/
def relayedFinalize : Request :=
  ⟨.stageStreamFinalize, [], .form [("final_size", .text "3"), ("upload_id", .text "0")]⟩

def openedNet : RelayNet (List Nat) Nat Unit := ⟨⟨relayOpened, []⟩, fun _ => ⟨openedState, []⟩, []⟩

abbrev exampleNet : System (RelayNet (List Nat) Nat Unit) (RelayLabel Unit) :=
  stagingNet (fun _ => ()) (fun _ => []) relaySession (fun _ => uploadSession) (List Nat) Nat [5, 6, 8]

theorem stagingStart_openedNet : StagingStart (fun _ => ()) relaySession (fun _ => uploadSession) openedNet where
  seed := ⟨rfl, rfl, rfl, rfl, rfl, fun _ _ he => (by cases he), fun _ _ he => (by cases he)⟩
  peer _ := ⟨rfl, opened_openedState⟩
  targets p hp := by
    obtain rfl : p = "p" := List.mem_singleton.1 hp
    exact ⟨"0", List.mem_singleton.2 rfl⟩
  agree _ _ := ⟨rfl, rfl⟩
  fail := rfl
  relayed := rfl
  answered := rfl

theorem mergeReceivedRange_whole : mergeReceivedRange [] 0 3 = [(0, 3)] := by simp [mergeReceivedRange, mergeStep]

theorem fromFile_wholeChunk : FromFile [5, 6, 8] wholeChunk := by
  refine ⟨fun _ w hw => ?_, fun hroute => by cases hroute⟩
  obtain rfl : w = (0, [5, 6, 8]) := List.mem_singleton.1 hw
  exact List.prefix_rfl

theorem fromFile_finalize {q : Request} (hroute : q.route = .stageStreamFinalize) (hn : finalSize q = some 3) :
    FromFile [5, 6, 8] q := by
  refine ⟨fun hchunk => ?_, fun _ n hn' => ?_⟩
  · rw [hroute] at hchunk
    cases hchunk
  · exact Option.some.inj (hn'.symm.trans hn)

theorem exec_wholeChunk : (handle wholeChunk).exec obliging false openedState =
    some (fileState uploadSession.upload openedState, .ok (ok (.streamChunk "0" "1" .full 3 ∅))) := by
  have hwritten : chunkWritten openedState 0 0 [5, 6, 8] [] = fileState uploadSession.upload openedState := by
    change setUpload _ 0 { uploadSession.upload with ranges := mergeReceivedRange [] 0 3, chunks := 1 } = _
    rw [mergeReceivedRange_whole]
    rfl
  rw [← hwritten]
  exact congrArg (fun r => some (_, Except.ok (ok (.streamChunk "0" "1" .full (receivedBytes r) ∅))))
    mergeReceivedRange_whole

theorem exec_relayedFinalize : (handle relayedFinalize).exec obliging false
    (fileState uploadSession.upload openedState) =
      some (stagedFile (fileState uploadSession.upload openedState),
        .ok (ok (.staged "1" .full "staging/0_full_w" ∅))) := rfl

/-- The seed's state after the chunk, and after the finalize. -/
def relayedState : ServerState (List Nat) Nat :=
  { fileState relaySession.upload relayOpened with
    relayed := [.post "p" { relayPost "p" .stageStreamChunk with
      params := [("upload_id", "0"), ("offset", "0")], content := some [5, 6, 8] }] }

def agreedState : ServerState (List Nat) Nat :=
  { stagedFile relayedState with
    relayed := relayedState.relayed ++ [streamFinalizeSend (requestFields finalizeUpload).1 ("p", "0")] }

theorem exec_seedChunk : (handle wholeChunk).exec obliging false relayOpened =
    some (relayedState, .ok (ok (.streamChunk "0" "1" .full 3 (.ofList [("p", true)])))) := by
  have hwritten : chunkWritten relayOpened 0 0 [5, 6, 8] [] = fileState relaySession.upload relayOpened := by
    change setUpload _ 0 { relaySession.upload with ranges := mergeReceivedRange [] 0 3, chunks := 1 } = _
    rw [mergeReceivedRange_whole]
    rfl
  unfold relayedState
  rw [← hwritten]
  exact congrArg (fun r => some (_, Except.ok (ok (.streamChunk "0" "1" .full (receivedBytes r)
    (.ofList [("p", true)]))))) mergeReceivedRange_whole

theorem exec_seedFinalize : (handle finalizeUpload).exec obliging false relayedState =
    some (agreedState, .ok (ok (.staged "1" .full "staging/0_full_w" (.ofList [("p", true)])))) := rfl

/-- The peer has answered all that the seed relays. -/
theorem delivered_agreed (seed : ServerConfig (List Nat) Nat) (peer : Unit → ServerConfig (List Nat) Nat) :
    ∀ send ∈ agreedState.relayed, Delivered (fun _ => ()) (fun _ => [])
      ⟨seed, peer, [] ++ [((), wholeChunk)] ++ [((), relayedFinalize)]⟩ send := by
  intro send hsend post hpost
  rcases List.mem_append.1 hsend with hsend | hsend
  · obtain rfl := List.mem_singleton.1 hsend
    obtain rfl := List.mem_singleton.1 hpost
    exact List.mem_cons_self
  · obtain rfl := List.mem_singleton.1 hsend
    obtain rfl := List.mem_singleton.1 hpost
    exact List.mem_cons_of_mem _ List.mem_cons_self

/-- The peer takes the chunk and the finalize, the seed as well, and both have the file. -/
theorem relayStagingAgreement_delivered : ∃ ls net, exampleNet.Run openedNet ls net ∧
    Holds "1" .full [5, 6, 8] net.seed.shared ∧ Holds "1" .full [5, 6, 8] (net.peer ()).shared := by
  obtain ⟨ls₁, h₁⟩ := stagingNet_peer (T := fun _ : Unit => uploadSession) world_obliging
    (.nil : exampleNet.Run openedNet [] openedNet) (i := ()) rfl ⟨Or.inl ⟨rfl, .str "0", rfl, rfl⟩, fromFile_wholeChunk⟩
    exec_wholeChunk ok_isSuccess
  obtain ⟨ls₂, h₂⟩ := stagingNet_peer (T := fun _ : Unit => uploadSession) world_obliging h₁ (i := ()) rfl
    ⟨Or.inr ⟨rfl, .str "0", rfl, rfl⟩, fromFile_finalize rfl rfl⟩ exec_relayedFinalize ok_isSuccess
  obtain ⟨ls₃, c₃, a₃, hrun₃, hlast₃, -⟩ := Pool.serve_run (P := relaySession.filePool (List Nat) Nat [5, 6, 8])
    world_obliging ⟨Or.inl ⟨rfl, .str "0", rfl, rfl⟩, fromFile_wholeChunk⟩ exec_seedChunk
  obtain ⟨ls₄, c₄, a₄, hrun₄, hlast₄, ha₄⟩ := Pool.serve_run (P := relaySession.filePool (List Nat) Nat [5, 6, 8])
    (q := finalizeUpload) world_obliging ⟨Or.inr ⟨rfl, .str "0", rfl, rfl⟩, fromFile_finalize rfl rfl⟩
    exec_seedFinalize
  have hseed := (hrun₃.snoc hlast₃).append hrun₄
  have hopened := stagingStart_openedNet.seed.2
  obtain ⟨hadvance, -⟩ := StreamSession.filePool_step hopened hseed hlast₄
  obtain ⟨ls₅, h₅⟩ := stagingNet_seed hopened hseed h₂ fun seed send hsend =>
    delivered_agreed seed _ send (hadvance.relayed hsend)
  have hroute : a₄.request.route = .stageStreamFinalize := by
    rw [ha₄]
    rfl
  have h₆ := h₅.snoc (NetStep.seed hlast₄ fun send hsend => Or.inr (delivered_agreed c₄ _ send hsend))
  obtain ⟨hholds, hpeers⟩ := relayStagingAgreement stagingStart_openedNet h₅
    (NetStep.seed hlast₄ fun send hsend => Or.inr (delivered_agreed c₄ _ send hsend)) hroute rfl rfl
  exact ⟨_, _, h₆, hholds, hpeers "p" (List.mem_singleton.2 rfl)⟩

end Example

end AuroraRl.Server
