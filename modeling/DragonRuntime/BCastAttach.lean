/-
# Attaching to a BCast (`src/lib/bcast.c`)

Each process of a node knows the BCasts that it has created or attached to by the entries of its
own table.  A serialized descriptor holds the key of the serializing process's table and the
serialized memory descriptor of the object; `dragon_bcast_attach` tries the key in the table of
the attaching process first, and attaches to the memory only when the key is not found.

Conventions:

* pointers are not `NULL`, attributes are valid, and `malloc` does not fail;
* memory is a token: the allocation that holds the object, or the location that was given to
  `create_at`.  An allocation has an id of its own in its pool, so that a token is given out
  once; attaching to it succeeds as long as it has not been freed;
* a call that returns an error changes nothing.
-/
import DragonRuntime.Umap
import DragonRuntime.ReturnCodes

/-- `DRAGON_BCAST_UMAP_SEED`. -/
def dragonBCastUmapSeed : UInt64 := 487

/-- `dragonBCast_t`: where the object is. -/
structure BCastHandle (M : Type*) where
  obj : M
  inManagedMemory : Bool
  deriving DecidableEq

/-- `dragonBCastDescr_t`. -/
structure BCastDescr where
  idx : UInt64
  deriving DecidableEq

/-- `dragonBCastSerial_t`. -/
structure BCastSerial (M : Type*) where
  hostid : UInt64
  idx : UInt64
  objMem : M
  deriving DecidableEq

/-- A node: the BCast tables of its processes (`dg_bcast`, `NULL` until the first registration),
the allocations that have been made and those that have not been freed since, and the serialized
descriptors that have been handed out. -/
structure BCastNode (P M : Type*) where
  hostId : UInt64
  dgBcast : P → Option (Umap (BCastHandle M))
  allocated : M → Bool
  live : M → Bool
  serials : List (BCastSerial M)

namespace BCastNode

variable {P M : Type*} [DecidableEq P] [DecidableEq M]

/-- A node on which no call has been made. -/
def init (hostId : UInt64) : BCastNode P M :=
  ⟨hostId, fun _ => none, fun _ => false, fun _ => false, []⟩

/-- `dragon_umap_getitem` on the BCast table of the process. -/
def getItem (node : BCastNode P M) (p : P) (key : UInt64) : Option (BCastHandle M) :=
  (node.dgBcast p).bind (fun map => map.dMap key)

/-- The memory that a descriptor of the process denotes. -/
def denotes (node : BCastNode P M) (p : P) (bd : BCastDescr) : Option M :=
  (node.getItem p bd.idx).map BCastHandle.obj

/-- `_bcast_add_umap_entry`. -/
def addUmapEntry (node : BCastNode P M) (p : P) (handle : BCastHandle M) :
    BCastNode P M × BCastDescr :=
  let entry := ((node.dgBcast p).getD (.create dragonBCastUmapSeed)).addItemGenKey handle
  ({ node with dgBcast := Function.update node.dgBcast p (some entry.1) }, ⟨entry.2⟩)

/-- `dragon_umap_delitem` on the BCast table of the process. -/
def delUmapEntry (node : BCastNode P M) (p : P) (bd : BCastDescr) : BCastNode P M :=
  { node with
    dgBcast := Function.update node.dgBcast p
      ((node.dgBcast p).map (fun map => map.delItem bd.idx)) }

/-- `dragon_bcast_create`, with the allocation `mem` from the pool. -/
def create (node : BCastNode P M) (p : P) (mem : M) :
    Except DragonError (BCastNode P M × BCastDescr) :=
  if node.allocated mem then .error .outOfSpace
  else
    .ok ({ node with
      allocated := Function.update node.allocated mem true
      live := Function.update node.live mem true }.addUmapEntry p ⟨mem, true⟩)

/-- `dragon_bcast_create_at` and `dragon_bcast_attach_at`. -/
def registerAt (node : BCastNode P M) (p : P) (loc : M) : BCastNode P M × BCastDescr :=
  node.addUmapEntry p ⟨loc, false⟩

/-- `dragon_bcast_attach`. -/
def attach (node : BCastNode P M) (p : P) (bdSer : BCastSerial M) :
    Except DragonError (BCastNode P M × BCastDescr) :=
  if bdSer.hostid ≠ node.hostId then .error .invalidArgument
  else
    -- `_bcast_descr_from_id`: have we already attached to the object?
    match node.getItem p bdSer.idx with
    | some _ => .ok (node, ⟨bdSer.idx⟩)
    | none =>
      -- `dragon_memory_attach`
      if node.live bdSer.objMem then .ok (node.addUmapEntry p ⟨bdSer.objMem, true⟩)
      else .error .objectDestroyed

/-- `dragon_bcast_serialize`. -/
def serialize (node : BCastNode P M) (p : P) (bd : BCastDescr) :
    Except DragonError (BCastSerial M) :=
  match node.getItem p bd.idx with
  | none => .error .mapKeyNotFound
  | some handle =>
    if handle.inManagedMemory then .ok ⟨node.hostId, bd.idx, handle.obj⟩
    else .error .bcastNotSerializable

/-- `dragon_bcast_detach`. -/
def detach (node : BCastNode P M) (p : P) (bd : BCastDescr) :
    Except DragonError (BCastNode P M) :=
  match node.getItem p bd.idx with
  | none => .error .mapKeyNotFound
  | some _ => .ok (node.delUmapEntry p bd)

/-- `dragon_bcast_destroy`, once no process waits. -/
def destroy (node : BCastNode P M) (p : P) (bd : BCastDescr) :
    Except DragonError (BCastNode P M) :=
  match node.getItem p bd.idx with
  | none => .error .mapKeyNotFound
  | some handle =>
    if handle.inManagedMemory then
      -- `dragon_memory_free`
      if node.live handle.obj then
        .ok ({ node with live := Function.update node.live handle.obj false }.delUmapEntry p bd)
      else .error .objectDestroyed
    else .ok (node.delUmapEntry p bd)

/-- The calls of the processes. -/
inductive Call (P M : Type*) : Type _ where
  | create (p : P) (mem : M)
  | createAt (p : P) (loc : M)
  | attachAt (p : P) (loc : M)
  | attach (p : P) (bdSer : BCastSerial M)
  | serialize (p : P) (bd : BCastDescr)
  | detach (p : P) (bd : BCastDescr)
  | destroy (p : P) (bd : BCastDescr)

/-- The node after a call. -/
def exec (node : BCastNode P M) : Call P M → BCastNode P M
  | .create p mem => (node.create p mem).toOption.elim node Prod.fst
  | .createAt p loc => (node.registerAt p loc).1
  | .attachAt p loc => (node.registerAt p loc).1
  | .attach p bdSer => (node.attach p bdSer).toOption.elim node Prod.fst
  | .serialize p bd =>
    (node.serialize p bd).toOption.elim node
      (fun bdSer => { node with serials := bdSer :: node.serials })
  | .detach p bd => (node.detach p bd).toOption.getD node
  | .destroy p bd => (node.destroy p bd).toOption.getD node

/-- The node after a sequence of calls by its processes. -/
def run (hostId : UInt64) (calls : List (Call P M)) : BCastNode P M :=
  calls.foldl exec (init hostId)

/-! ## The keys in circulation -/

/-- The key of the `n`-th registration of a process, the same in every process. -/
def registrationKey (n : ℕ) : UInt64 := keyAfter dragonBCastUmapSeed n

/-- All keys in the tables and in the serialized descriptors are keys of registrations. -/
structure WellKept (node : BCastNode P M) : Prop where
  tables : ∀ p map, node.dgBcast p = some map → map.WellKeyed dragonBCastUmapSeed
  serials : ∀ bdSer ∈ node.serials,
    bdSer.hostid = node.hostId ∧ ∃ n, bdSer.idx = registrationKey n

omit [DecidableEq P] [DecidableEq M] in
theorem WellKept.init (hostId : UInt64) : (init hostId : BCastNode P M).WellKept := by
  constructor
  · intro p map hmap
    exact absurd hmap (by nofun)
  · intro bdSer hmem
    exact absurd hmem List.not_mem_nil

variable {node : BCastNode P M} {p : P}

omit [DecidableEq P] [DecidableEq M] in
theorem WellKept.key_of_getItem (h : node.WellKept) {key : UInt64} {handle : BCastHandle M}
    (hget : node.getItem p key = some handle) : ∃ n, key = registrationKey n := by
  obtain ⟨map, hmap, hitem⟩ := Option.bind_eq_some_iff.mp hget
  apply (h.tables p map hmap).keyed key
  rw [hitem]
  nofun

omit [DecidableEq M] in
theorem WellKept.setTable (h : node.WellKept) (p : P) {table : Option (Umap (BCastHandle M))}
    (htable : ∀ map, table = some map → map.WellKeyed dragonBCastUmapSeed)
    {allocated live : M → Bool} :
    { node with
      dgBcast := Function.update node.dgBcast p table
      allocated := allocated
      live := live : BCastNode P M }.WellKept := by
  refine ⟨?_, h.serials⟩
  intro q map hmap
  change Function.update node.dgBcast p table q = some map at hmap
  by_cases hq : q = p
  · subst hq
    apply htable
    rwa [Function.update_self] at hmap
  · apply h.tables q
    rwa [Function.update_of_ne hq] at hmap

omit [DecidableEq P] [DecidableEq M] in
theorem WellKept.setMemory (h : node.WellKept) (allocated live : M → Bool) :
    { node with allocated := allocated, live := live : BCastNode P M }.WellKept :=
  ⟨h.tables, h.serials⟩

omit [DecidableEq M] in
theorem WellKept.addUmapEntry (h : node.WellKept) (p : P) (handle : BCastHandle M) :
    (node.addUmapEntry p handle).1.WellKept := by
  apply h.setTable p
  intro map hmap
  rw [← Option.some.inj hmap]
  apply Umap.WellKeyed.addItemGenKey
  -- the first registration makes the table
  cases htable : node.dgBcast p with
  | none => exact Umap.WellKeyed.create _
  | some map => exact h.tables p map htable

omit [DecidableEq M] in
theorem WellKept.delUmapEntry (h : node.WellKept) (p : P) (bd : BCastDescr) :
    (node.delUmapEntry p bd).WellKept := by
  apply h.setTable p
  intro map' hmap'
  obtain ⟨map, hmap, rfl⟩ := Option.map_eq_some_iff.mp hmap'
  exact (h.tables p map hmap).delItem bd.idx

theorem WellKept.exec (h : node.WellKept) (call : Call P M) : (node.exec call).WellKept := by
  cases call with
  | create p =>
    rw [BCastNode.exec, BCastNode.create]
    split
    · exact h
    · exact (h.setMemory _ _).addUmapEntry p _
  | createAt p => exact h.addUmapEntry p _
  | attachAt p => exact h.addUmapEntry p _
  | attach p =>
    rw [BCastNode.exec, BCastNode.attach]
    split
    · exact h
    · split
      · exact h
      · split
        · exact h.addUmapEntry p _
        · exact h
  | serialize p bd =>
    rw [BCastNode.exec, BCastNode.serialize]
    cases hget : node.getItem p bd.idx with
    | none => exact h
    | some handle =>
      simp only []
      split
      · refine ⟨h.tables, ?_⟩
        intro bdSer hmem
        rcases List.mem_cons.mp hmem with rfl | hmem
        · exact ⟨rfl, h.key_of_getItem hget⟩
        · exact h.serials bdSer hmem
      · exact h
  | detach p bd =>
    rw [BCastNode.exec, BCastNode.detach]
    split
    · exact h
    · exact h.delUmapEntry p bd
  | destroy p bd =>
    rw [BCastNode.exec, BCastNode.destroy]
    split
    · exact h
    · split
      · split
        · exact (h.setMemory _ _).delUmapEntry p bd
        · exact h
      · exact h.delUmapEntry p bd

theorem wellKept_run (hostId : UInt64) (calls : List (Call P M)) :
    (run hostId calls).WellKept :=
  List.foldlRecOn calls BCastNode.exec (.init hostId) fun _ h call _ => h.exec call

/-! ## What an attach yields -/

/-- The process knows the BCast in `obj` as the one of its `n`-th registration. -/
def KnownAs (node : BCastNode P M) (p : P) (n : ℕ) (obj : M) : Prop :=
  node.denotes p ⟨registrationKey n⟩ = some obj

/-- The call registers the BCast in `obj` in the table of the process. -/
def Call.Registers (p : P) (obj : M) : Call P M → Prop
  | .create q mem | .createAt q mem | .attachAt q mem => q = p ∧ mem = obj
  | .attach q bdSer => q = p ∧ bdSer.objMem = obj
  | _ => False

variable {n : ℕ} {obj : M}

omit [DecidableEq M] in
theorem KnownAs.of_addUmapEntry {q : P} {handle : BCastHandle M} (hnot : ¬ node.KnownAs p n obj)
    (h : (node.addUmapEntry q handle).1.KnownAs p n obj) : q = p ∧ handle.obj = obj := by
  obtain ⟨handle', hget, rfl⟩ := Option.map_eq_some_iff.mp h
  rcases Umap.find_of_addItemGenKey hget with ⟨rfl, rfl⟩ | hold
  · exact ⟨rfl, rfl⟩
  · exact absurd (congrArg (Option.map BCastHandle.obj) hold) hnot

omit [DecidableEq M] in
theorem KnownAs.of_delUmapEntry {q : P} {bd : BCastDescr}
    (h : (node.delUmapEntry q bd).KnownAs p n obj) : node.KnownAs p n obj := by
  obtain ⟨handle, hget, rfl⟩ := Option.map_eq_some_iff.mp h
  exact congrArg (Option.map BCastHandle.obj) (Umap.find_of_delItem hget)

/-- **Step** of what a process knows. -/
theorem KnownAs.registers {call : Call P M} (hnot : ¬ node.KnownAs p n obj)
    (h : (node.exec call).KnownAs p n obj) : call.Registers p obj := by
  cases call with
  | create q mem =>
    rw [exec, BCastNode.create] at h
    split at h
    · exact absurd h hnot
    · exact KnownAs.of_addUmapEntry hnot h
  | createAt | attachAt => exact h.of_addUmapEntry hnot
  | attach q bdSer =>
    rw [exec, attach] at h
    split at h
    · exact absurd h hnot
    · split at h
      · exact absurd h hnot
      · split at h
        · exact KnownAs.of_addUmapEntry hnot h
        · exact absurd h hnot
  | serialize q bd =>
    rw [exec] at h
    cases hser : node.serialize q bd with
    | error => exact absurd (by rwa [hser] at h) hnot
    | ok => exact absurd (by rwa [hser] at h) hnot
  | detach q bd =>
    rw [exec, detach] at h
    split at h
    · exact absurd h hnot
    · exact absurd (KnownAs.of_delUmapEntry h) hnot
  | destroy q bd =>
    rw [exec, destroy] at h
    split at h
    · exact absurd h hnot
    · split at h
      · split at h
        · exact absurd (KnownAs.of_delUmapEntry h) hnot
        · exact absurd h hnot
      · exact absurd (KnownAs.of_delUmapEntry h) hnot

/-- **What a process knows** was registered by a call of its own. -/
theorem KnownAs.registered {hostId : UInt64} {calls : List (Call P M)}
    (h : (run hostId calls).KnownAs p n obj) :
    ∃ before call after, calls = before ++ call :: after ∧ call.Registers p obj ∧
      ¬ (run hostId before).KnownAs p n obj ∧ (run hostId (before ++ [call])).KnownAs p n obj := by
  induction calls using List.reverseRecOn with
  | nil => exact absurd h.symm (Option.some_ne_none obj)
  | append_singleton calls call ih =>
    by_cases hbefore : (run hostId calls).KnownAs p n obj
    · obtain ⟨before, call', after, rfl, hrest⟩ := ih hbefore
      exact ⟨before, call', after ++ [call], by simp, hrest⟩
    · refine ⟨calls, call, [], rfl, ?_, hbefore, h⟩
      rw [run, List.foldl_append] at h
      exact KnownAs.registers hbefore h

/-- The attach of the process to the serialized descriptor denotes the memory in it. -/
def AttachFinds (node : BCastNode P M) (p : P) (bdSer : BCastSerial M) : Prop :=
  ∃ node' bd, node.attach p bdSer = .ok (node', bd) ∧
    node'.denotes p bd = some bdSer.objMem

omit [DecidableEq M] in
theorem denotes_addUmapEntry (node : BCastNode P M) (p : P) (handle : BCastHandle M) :
    (node.addUmapEntry p handle).1.denotes p (node.addUmapEntry p handle).2 = some handle.obj := by
  have htable : (node.addUmapEntry p handle).1.dgBcast p =
      some (((node.dgBcast p).getD (.create dragonBCastUmapSeed)).addItemGenKey handle).1 :=
    Function.update_self _ _ _
  rw [denotes, getItem, htable, Option.bind_some]
  exact congrArg (Option.map BCastHandle.obj) (Umap.addItemGenKey_find _ _)

omit [DecidableEq M] in
/-- A key that is found decides what the descriptor denotes, whatever memory was serialized. -/
theorem attachFinds_of_getItem {bdSer : BCastSerial M} (hhost : bdSer.hostid = node.hostId)
    {handle : BCastHandle M} (hget : node.getItem p bdSer.idx = some handle) :
    node.AttachFinds p bdSer ↔ handle.obj = bdSer.objMem := by
  have hattach : node.attach p bdSer = .ok (node, ⟨bdSer.idx⟩) := by
    rw [BCastNode.attach, if_neg (not_not_intro hhost), hget]
  have hdenotes : node.denotes p ⟨bdSer.idx⟩ = some handle.obj := by
    rw [BCastNode.denotes, hget]
    rfl
  constructor
  · rintro ⟨node', bd, hok, hobj⟩
    obtain ⟨rfl, rfl⟩ := Prod.mk.inj (Except.ok.inj (hattach.symm.trans hok))
    exact Option.some.inj (hdenotes.symm.trans hobj)
  · intro hobj
    exact ⟨node, ⟨bdSer.idx⟩, hattach, hdenotes.trans (congrArg some hobj)⟩

omit [DecidableEq M] in
/-- A key that is not found makes the attach use the serialized memory. -/
theorem attachFinds_of_getItem_none {bdSer : BCastSerial M} (hhost : bdSer.hostid = node.hostId)
    (hlive : node.live bdSer.objMem = true) (hget : node.getItem p bdSer.idx = none) :
    node.AttachFinds p bdSer := by
  refine ⟨_, _, ?_, denotes_addUmapEntry node p ⟨bdSer.objMem, true⟩⟩
  rw [BCastNode.attach, if_neg (not_not_intro hhost), hget]
  exact if_pos hlive

/-- **What an attach yields.**  After any calls by any processes, attaching to the serialized
descriptor of a live BCast denotes that BCast exactly when the attaching process knows no other
BCast as that of a registration of its own with the key that is in the descriptor. -/
theorem attachFinds_iff (hostId : UInt64) (calls : List (Call P M)) (p : P)
    (bdSer : BCastSerial M) (hser : bdSer ∈ (run hostId calls).serials)
    (hlive : (run hostId calls).live bdSer.objMem = true) :
    (run hostId calls).AttachFinds p bdSer ↔
      ∀ n obj, registrationKey n = bdSer.idx → (run hostId calls).KnownAs p n obj →
        obj = bdSer.objMem := by
  obtain ⟨hhost, n, hn⟩ := (wellKept_run hostId calls).serials bdSer hser
  cases hget : (run hostId calls).getItem p bdSer.idx with
  | none =>
    refine iff_of_true (attachFinds_of_getItem_none hhost hlive hget) ?_
    intro m obj hm hknown
    rw [KnownAs, denotes, hm, hget] at hknown
    exact absurd hknown.symm (Option.some_ne_none obj)
  | some handle =>
    rw [attachFinds_of_getItem hhost hget]
    have hknown : ∀ m, registrationKey m = bdSer.idx → ∀ obj,
        ((run hostId calls).KnownAs p m obj ↔ handle.obj = obj) := by
      intro m hm obj
      rw [KnownAs, denotes, hm, hget]
      exact Option.some_inj
    constructor
    · intro hobj m obj hm hobj'
      rw [← (hknown m hm obj).mp hobj', hobj]
    · intro h
      exact h n handle.obj hn.symm ((hknown n hn.symm _).mpr rfl)

/-- Process 0 creates a BCast and serializes it, and process 1 attaches. -/
theorem attachFinds_iff_two_processes :
    (run 1 [.create 0 10, .serialize 0 ⟨registrationKey 0⟩] : BCastNode ℕ ℕ).AttachFinds 1
      ⟨1, registrationKey 0, 10⟩ := by
  refine (attachFinds_iff 1 _ 1 ⟨1, registrationKey 0, 10⟩ ?_ ?_).mpr ?_
  · decide +kernel
  · decide +kernel
  · intro n obj hn hknown
    have hnone : (run 1 [.create 0 10, .serialize 0 ⟨registrationKey 0⟩] :
        BCastNode ℕ ℕ).denotes 1 ⟨registrationKey 0⟩ = none := by
      decide +kernel
    rw [KnownAs, hn, hnone] at hknown
    exact absurd hknown (Option.some_ne_none obj).symm

/-- Processes 0 and 1 create a BCast each, under the same key.  The attach of process 1 to the
serialized BCast of process 0 denotes its own. -/
theorem not_attachFinds_two_creators :
    ⟨1, registrationKey 0, 10⟩ ∈ (run 1 [.create 0 10, .create 1 20,
        .serialize 0 ⟨registrationKey 0⟩] : BCastNode ℕ ℕ).serials ∧
      (run 1 [.create 0 10, .create 1 20, .serialize 0 ⟨registrationKey 0⟩] :
        BCastNode ℕ ℕ).live 10 = true ∧
      ¬ (run 1 [.create 0 10, .create 1 20, .serialize 0 ⟨registrationKey 0⟩] :
        BCastNode ℕ ℕ).AttachFinds 1 ⟨1, registrationKey 0, 10⟩ := by
  refine ⟨by decide +kernel, by decide +kernel, ?_⟩
  have hhost : (1 : UInt64) = (run 1 [.create 0 10, .create 1 20,
      .serialize 0 ⟨registrationKey 0⟩] : BCastNode ℕ ℕ).hostId := by
    decide +kernel
  have hget : (run 1 [.create 0 10, .create 1 20, .serialize 0 ⟨registrationKey 0⟩] :
      BCastNode ℕ ℕ).getItem 1 (registrationKey 0) = some ⟨20, true⟩ := by
    decide +kernel
  have hiff : (run 1 [.create 0 10, .create 1 20, .serialize 0 ⟨registrationKey 0⟩] :
      BCastNode ℕ ℕ).AttachFinds 1 ⟨1, registrationKey 0, 10⟩ ↔
        (⟨20, true⟩ : BCastHandle ℕ).obj =
          (⟨1, registrationKey 0, 10⟩ : BCastSerial ℕ).objMem :=
    attachFinds_of_getItem hhost hget
  intro hfinds
  exact absurd (hiff.mp hfinds) (by decide)

end BCastNode
