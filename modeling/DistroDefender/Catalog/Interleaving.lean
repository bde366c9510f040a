import DistroDefender.Catalog.Catalog
import DistroDefender.Store.Refinement

/-!
# Requests that interleave

Any number of clients send POST, PUT and DELETE requests to catalogs over one store. Each store call
is one step, and the steps of different requests interleave freely. A PUT or a DELETE of a document
asks for the namespace of the document in one step and writes it in a later one, by a call that
takes no namespace.

`isolating` says what holds of the runs in which no document is created, in another namespace, under
a name that a request has asked about and is about to write: no PUT and no DELETE touches a document
outside the namespace it carries. The invariant (`Inv`) is that the document a request is about to
write has no other namespace than the one it carries; `inv_step` carries it over every step of every
client.
-/

namespace DistroDefender.Catalog

open Base Lib Store

/-- The requests. -/
inductive Req where
  | post (collection : Resource) (namespaceStr content : String)
  | put (item : Resource) (content namespaceId : String)
  | delete (resource : Resource) (namespaceId : String)

namespace Req

/-- The program of a request. -/
def prog (cfg : Config) : Req → StoreM OptError
  | .post collection namespaceStr content => postResource cfg collection namespaceStr content
  | .put item content namespaceId => putResource cfg item content namespaceId
  | .delete resource namespaceId => deleteResource resource namespaceId

/-- The namespace a request carries. A collection is deleted in the namespace its text is parsed to;
a document is updated or deleted when the text is that of its namespace. -/
def Carries : Req → NamespaceId → Prop
  | .post _ namespaceStr _, ns => parseNamespace namespaceStr = .ok ns
  | .put _ _ namespaceId, ns => namespaceId = ns.str
  | .delete resource namespaceId, ns =>
    if resource.type = .COLLECTION then parseNamespace namespaceId = .ok ns
    else namespaceId = ns.str

/-- A PUT or a DELETE. -/
def Modifies : Req → Prop
  | .post .. => False
  | .put .. | .delete .. => True

end Req

/-- The call updates or deletes the document `name`. -/
inductive Writes (name : Name) : StoreCall → Prop
  | updateDoc (content : Doc) : Writes name (.updateDoc name content)
  | deleteDoc : Writes name (.deleteDoc name)

/-- A store, and the request of every client with what is left of its program. -/
structure Requests (ι σ : Type) where
  store : Store σ
  task : ι → Option (Req × StoreM OptError)

/-- The steps of a client. -/
inductive Act where
  | send (q : Req)
  | call

section

variable {ι σ : Type} [DecidableEq ι]

/-- One step of client `i`. -/
inductive Step (d : IDriver σ) (cfg : Config) : Requests ι σ → ι × Act → Requests ι σ → Prop
  /-- A client whose last request is over sends one. -/
  | send {M : Requests ι σ} {i : ι} (q : Req) (h : ∀ q' p, M.task i = some (q', p) → p.Over) :
      Step d cfg M (i, .send q) { M with task := Function.update M.task i (some (q, q.prog cfg)) }
  | call {M : Requests ι σ} {i : ι} {q : Req} {c : StoreCall} {k : c.Answer → StoreM OptError}
      (h : M.task i = some (q, .call c k)) :
      Step d cfg M (i, .call)
        ⟨resultState ((handle d c).run M.store),
          Function.update M.task i (some (q, Prog.resume k ((handle d c).run M.store)))⟩

/-- The clients of a reachable store. -/
def requests (d : TreeDriver σ) (cfg : Config) : System (Requests ι σ) (ι × Act) where
  init M := (Store.system d).Reachable M.store ∧ ∀ i, M.task i = none
  step := Step d.toIDriver cfg

/-- Every document of a namespace the request does not carry is as it was. -/
def Untouched (d : IDriver σ) (q : Req) (s s' : Store σ) : Prop :=
  ∀ n ns, getNamespace s n = some ns → ¬ q.Carries ns →
    getNamespace s' n = some ns ∧ Store.readDoc d s' n = Store.readDoc d s n

/-- No step of a PUT or a DELETE touches a document outside its namespace. -/
def Isolating (d : IDriver σ) (cfg : Config) (M : Requests ι σ) : Prop :=
  ∀ i q p M', M.task i = some (q, p) → q.Modifies → Step d cfg M (i, .call) M' →
    Untouched d q M.store M'.store

/-- The condition on a step: a document is created only where every request about to write its name
carries the namespace it is created in. -/
def Orderly (d : IDriver σ) (M : Requests ι σ) (l : ι × Act) : Prop :=
  ∀ q c k n ns, l.2 = .call → M.task l.1 = some (q, .call c k) → getNamespace M.store n = none →
    getNamespace (resultState ((handle d c).run M.store)) n = some ns →
    ∀ j q' c' k', M.task j = some (q', .call c' k') → Writes n c' → q'.Carries ns

end

/-! ## One call -/

section Calls

variable {σ : Type} {d : TreeDriver σ} {s : Store σ} {m : DocMap}

/-- The store operation of a call that writes. -/
def StoreCall.op : StoreCall → Option Store.Op
  | .readDoc _ | .readCol .. | .getNamespace _ => none
  | .createDoc name ns content => some (.createDoc name ns content)
  | .updateDoc name content => some (.updateDoc name content)
  | .deleteDoc name => some (.deleteDoc name)
  | .deleteCol name ns => some (.deleteCol name ns)

/-- What a call does to the map: nothing, or the operation it stands for. -/
theorem handle_holds (h : Holds d s m) (c : StoreCall) :
    ∃ m', Holds d (resultState ((handle d.toIDriver c).run s)) m' ∧
      (m' = m ∨ ∃ o a, c.op = some o ∧ o.onMap = some a ∧ a.Enabled Name.Below m ∧
        m' = a.effect Name.Below m) := by
  have hop : ∀ o : Store.Op, c.op = some o →
      ∃ m', Holds d (resultState ((exec d.toIDriver o).run s)) m' ∧
        (m' = m ∨ ∃ o a, c.op = some o ∧ o.onMap = some a ∧ a.Enabled Name.Below m ∧
          m' = a.effect Name.Below m) := by
    intro o ho
    obtain ⟨m', hm, hs⟩ := exec_step (l := (o, succeeded ((exec d.toIDriver o).run s))) h ⟨rfl, rfl⟩
    refine ⟨m', hs, ?_⟩
    simp only [mapSystem, OwnedMap.system] at hm
    split at hm
    · rename_i a _ ha
      exact .inr ⟨o, a, ho, ha, hm⟩
    · exact .inl hm
    · exact .inl hm
  cases c with
  | readDoc name =>
    refine ⟨m, ?_, .inl rfl⟩
    show Holds d (resultState ((orThrow (Store.readDoc d.toIDriver s name)).run s)) m
    cases Store.readDoc d.toIDriver s name <;> exact h
  | readCol name ns | getNamespace name => exact ⟨m, h, .inl rfl⟩
  | createDoc name ns content | updateDoc name content | deleteDoc name | deleteCol name ns =>
    exact hop _ rfl

/-- A document has the namespace it had, or had none. -/
theorem getNamespace_handle (h : Holds d s m) {c : StoreCall} {n : Name} {ns : NamespaceId}
    (hns : getNamespace (resultState ((handle d.toIDriver c).run s)) n = some ns) :
    getNamespace s n = some ns ∨ getNamespace s n = none := by
  obtain ⟨m', hm', hcases⟩ := handle_holds h c
  rw [hm'.answers.getNamespace] at hns
  rw [h.answers.getNamespace]
  rcases hcases with rfl | ⟨o, a, ho, ha, hen, rfl⟩
  · exact .inl hns
  rcases OwnedMap.owner_effect _ hns with hold | hgives
  · exact .inl hold
  cases c with
  | readDoc name | readCol name ns | getNamespace name => cases ho
  | updateDoc name content | deleteDoc name | deleteCol name ns =>
    cases ho
    cases ha
    cases hgives
  | createDoc name ns content =>
    cases ho
    cases ha
    obtain ⟨rfl, -⟩ := hgives
    exact .inr (OwnedMap.owner_eq_none.mpr hen)

/-- A document a call is not about is as it was. -/
theorem handle_frame (h : Holds d s m) {c : StoreCall} {n : Name} {ns : NamespaceId}
    (hns : getNamespace s n = some ns)
    (hc : ∀ o a, c.op = some o → o.onMap = some a → ¬ a.Touches Name.Below m n) :
    getNamespace (resultState ((handle d.toIDriver c).run s)) n = some ns ∧
      Store.readDoc d.toIDriver (resultState ((handle d.toIDriver c).run s)) n =
        Store.readDoc d.toIDriver s n := by
  obtain ⟨m', hm', hcases⟩ := handle_holds h c
  have hsame : m' n = m n := by
    rcases hcases with rfl | ⟨o, a, ho, ha, -, rfl⟩
    · rfl
    · exact OwnedMap.effect_frame _ (hc o a ho ha)
  rw [hm'.answers.getNamespace, hm'.answers.readDoc, h.answers.readDoc, hsame]
  rw [h.answers.getNamespace] at hns
  refine ⟨?_, rfl⟩
  unfold OwnedMap.owner at hns ⊢
  rw [hsame]
  exact hns

end Calls

/-! ## What is left of a request -/

/-- What is left of a request, where the store is `s`. -/
inductive Stage {σ : Type} (s : Store σ) (q : Req) : StoreM OptError → Prop
  | finished {p : StoreM OptError} (h : p.Over) : Stage s q p
  /-- It asks for a namespace, and goes on when it carries this namespace. -/
  | asking {n : Name} {next : Option NamespaceId → StoreM OptError}
      (h : ∀ owner, (next owner).Over ∨
        ∃ c k, (∃ ns, owner = some ns ∧ q.Carries ns) ∧ Writes n c ∧ next owner = .call c k ∧
          ∀ a, (k a).Over) : Stage s q (.call (.getNamespace n) next)
  /-- It is about to write a document that has no other namespace than the one it carries. -/
  | writing {n : Name} {c : StoreCall} {k : c.Answer → StoreM OptError} (hc : Writes n c)
      (h : ∀ ns, getNamespace s n = some ns → q.Carries ns) (hk : ∀ a, (k a).Over) :
      Stage s q (.call c k)
  | dropping {n : Name} {ns : NamespaceId} {k : OptError → StoreM OptError} (h : q.Carries ns)
      (hk : ∀ a, (k a).Over) : Stage s q (.call (.deleteCol n ns) k)
  | creating {n : Name} {ns : NamespaceId} {content : Doc} {k : OptError → StoreM OptError}
      (h : ¬ q.Modifies) (hk : ∀ a, (k a).Over) : Stage s q (.call (.createDoc n ns content) k)

/-- A request starts in one of these stages. -/
theorem Stage.prog {σ : Type} (cfg : Config) (s : Store σ) (q : Req) : Stage s q (q.prog cfg) := by
  cases q with
  | post collection namespaceStr content =>
    show Stage s _ (postResource cfg collection namespaceStr content)
    rcases postResource_shape cfg collection namespaceStr content with hrefused |
      ⟨r, ns, j, k, -, hp, hk⟩
    · exact .finished hrefused.over
    · rw [hp]
      exact .creating id hk.over
  | put item content namespaceId =>
    show Stage s _ (putResource cfg item content namespaceId)
    rcases putResource_shape cfg item content namespaceId with ⟨⟨e, he⟩, -⟩ | ⟨next, hp, hnext⟩
    · rw [he]
      exact .finished (.ret _)
    · rw [hp]
      refine .asking fun owner => ?_
      rcases hnext owner with ⟨⟨e, he⟩, -⟩ | ⟨c, j, haccepts, hcall⟩
      · rw [he]
        exact .inl (.ret _)
      · exact .inr ⟨_, _, haccepts.same, .updateDoc _, hcall, fun _ => .ret _⟩
  | delete resource namespaceId =>
    show Stage s _ (deleteResource resource namespaceId)
    by_cases htype : resource.type = .COLLECTION
    · rcases deleteResource_shape_col htype namespaceId with hrefused | ⟨ns, k, hns, hp, hk⟩
      · exact .finished hrefused.over
      · rw [hp]
        refine .dropping ?_ hk.over
        simp only [Req.Carries, if_pos htype]
        exact hns
    · rcases deleteResource_shape_doc htype namespaceId with hrefused | ⟨next, hp, hnext⟩
      · exact .finished hrefused.over
      · rw [hp]
        refine .asking fun owner => ?_
        rcases hnext owner with hrefused | ⟨⟨ns, hns, hsame⟩, hcall⟩
        · exact .inl hrefused.over
        · refine .inr ⟨_, _, ⟨ns, hns, ?_⟩, .deleteDoc, hcall, fun a => .ret a⟩
          simp only [Req.Carries, if_neg htype]
          exact hsame

/-- The stage of another request survives a call that creates no document under a name it is about
to write, but in its own namespace. -/
theorem Stage.mono {σ : Type} {s s' : Store σ} {q : Req} {p : StoreM OptError} (h : Stage s q p)
    (hs : ∀ n ns c k, p = .call c k → Writes n c → getNamespace s' n = some ns →
      getNamespace s n = some ns ∨ q.Carries ns) : Stage s' q p := by
  cases h with
  | finished h => exact .finished h
  | asking h => exact .asking h
  | writing hc h hk =>
    refine .writing hc (fun ns hns => ?_) hk
    rcases hs _ ns _ _ rfl hc hns with hold | hcarries
    · exact h ns hold
    · exact hcarries
  | dropping h hk => exact .dropping h hk
  | creating h hk => exact .creating h hk

/-- A request moves on to a stage by its own call. -/
theorem Stage.resume {σ : Type} {d : IDriver σ} {s : Store σ} {q : Req} {c : StoreCall}
    {k : c.Answer → StoreM OptError} (h : Stage s q (.call c k)) :
    Stage (resultState ((handle d c).run s)) q (Prog.resume k ((handle d c).run s)) := by
  cases h with
  | finished h => exact absurd h Prog.not_over_call
  | @asking n next h =>
    show Stage s q (next (getNamespace s n))
    rcases h (getNamespace s n) with hover | ⟨c, k, ⟨ns, hns, hcarries⟩, hc, hcall, hk⟩
    · exact .finished hover
    · rw [hcall]
      refine .writing hc (fun ns' hns' => ?_) hk
      cases hns.symm.trans hns'
      exact hcarries
  | writing hc h hk => exact .finished (.resume hk _)
  | dropping h hk => exact .finished (.resume hk _)
  | creating h hk => exact .finished (.resume hk _)

/-! ## Runs -/

section Runs

variable {ι σ : Type} [DecidableEq ι] {d : TreeDriver σ} {cfg : Config} {M M' : Requests ι σ}

/-- What holds along the runs whose steps are orderly. -/
structure Inv (d : TreeDriver σ) (M : Requests ι σ) : Prop where
  store : ∃ m, Holds d M.store m
  stage : ∀ i q p, M.task i = some (q, p) → Stage M.store q p

theorem inv_init (cfg : Config) (h : (requests d cfg).init M) : Inv d M where
  store := holds_of_reachable h.1
  stage i q p hi := by cases (h.2 i).symm.trans hi

theorem inv_step {l : ι × Act} (h : Inv d M) (hg : Orderly d.toIDriver M l)
    (hs : Step d.toIDriver cfg M l M') : Inv d M' := by
  cases hs with
  | send q hover =>
    refine ⟨h.store, fun j q' p hj => ?_⟩
    simp only [Function.update_apply] at hj
    split at hj
    · cases hj
      exact .prog cfg M.store _
    · exact h.stage j q' p hj
  | @call i q c k hi =>
    obtain ⟨m, hm⟩ := h.store
    have hstage := h.stage i q _ hi
    refine ⟨(handle_holds hm c).imp fun _ hm => hm.1, fun j q' p hj => ?_⟩
    simp only [Function.update_apply] at hj
    split at hj
    · cases hj
      exact hstage.resume
    · refine (h.stage j q' p hj).mono fun n ns c' k' hp hc hns => ?_
      rcases getNamespace_handle hm hns with hold | hfree
      · exact .inl hold
      · -- the step creates the document: this is where the condition is used
        rw [hp] at hj
        exact .inr (hg q c k n ns rfl hi hfree hns j q' c' k' hj hc)

theorem inv_inductive :
    ((requests (ι := ι) d cfg).guarded (Orderly d.toIDriver)).Inductive (Inv d) where
  init _ hi := inv_init cfg hi
  step _ _ _ hI hs := inv_step hI hs.1 hs.2

/-- Along the runs whose steps are orderly, a PUT or a DELETE touches no document outside the
namespace it carries. -/
theorem isolating (cfg : Config) (d : TreeDriver σ) (M : Requests ι σ)
    (h : ((requests d cfg).guarded (Orderly d.toIDriver)).Reachable M) :
    Isolating d.toIDriver cfg M := by
  have hinv := inv_inductive.holds h
  obtain ⟨m, hm⟩ := hinv.store
  intro i q p M' hp hq hs n ns hns hcarries
  cases hs with
  | @call i q' c k hi =>
  cases hp.symm.trans hi
  refine handle_frame hm hns fun o a ho ha htouch => hcarries ?_
  cases hinv.stage i q _ hi with
  | finished h => exact absurd h Prog.not_over_call
  | asking h => cases ho
  | writing hc h hk =>
    cases hc with
    | updateDoc content | deleteDoc =>
      cases ho
      cases ha
      cases htouch
      exact h ns hns
  | dropping h hk =>
    cases ho
    cases ha
    rw [hm.answers.getNamespace, htouch.1] at hns
    cases hns
    exact h
  | creating h hk => exact absurd hq h

end Runs

/-! ## Two clients -/

section TwoClients

def docName : Name := ⟨["decoder", "a", "0"], by decide, by decide, by decide⟩

def userNs : NamespaceId := ⟨⟨["user"], by decide, by decide, by decide⟩, rfl⟩

def docText : String := "\x7b\"name\":\"decoder/a/0\"\x7d"

def docJson : Json := .obj [("name", .str "decoder/a/0")]

/-- A catalog that accepts every asset; its rapidjson knows one text. -/
def accepting : Config :=
  ⟨⟨fun _ _ => none, fun _ => none⟩,
    ⟨fun text => if text = docText then .ok docJson else .error ⟨"Parse error"⟩, fun _ => docText⟩⟩

/-- A store with the document in the namespace `user`. -/
def userStore : Store MemTree :=
  resultState ((Store.createDoc memDriver.toIDriver docName userNs .null).run ⟨.empty, .empty⟩)

theorem userStore_ns : getNamespace userStore docName = some userNs := by decide +kernel

theorem userStore_reachable : (Store.system memDriver.toTreeDriver).Reachable userStore :=
  System.Reachable.step (s := ⟨.empty, .empty⟩) (l := (.createDoc docName userNs .null, true))
    (.init ⟨rfl, fun _ _ => rfl⟩) ⟨rfl, rfl⟩

/-- The store after the document is deleted there and created in `system`. -/
def systemStore : Store MemTree :=
  resultState ((handle memDriver.toIDriver (.createDoc docName systemNs
      (utils.jsonGenerator docJson docText))).run
    (resultState ((handle memDriver.toIDriver (.deleteDoc docName)).run userStore)))

/-- A DELETE of the document in `user`, and a POST of it in `system`. -/
def deleteUser : Req := .delete ⟨docName, .DECODER, true⟩ "user"

def postSystem : Req :=
  .post ⟨decoderName, .COLLECTION, false⟩ "system" docText

/-- What is left of the DELETE after its check passed. -/
def deleting : Req × StoreM OptError := (deleteUser, .call (.deleteDoc docName) .ret)

theorem prog_deleteUser : ∃ next, deleteUser.prog accepting = .call (.getNamespace docName) next ∧
    next (some userNs) = .call (.deleteDoc docName) .ret := ⟨_, rfl, rfl⟩

theorem prog_postSystem : ∃ k, postSystem.prog accepting =
    .call (.createDoc docName systemNs (utils.jsonGenerator docJson docText)) k := by
  have hns : parseNamespace "system" = .ok systemNs := by decide +kernel
  have hparse : accepting.rapidjson.parse (cstr docText) = .ok docJson := by
    have htext : cstr docText = docText := by decide +kernel
    rw [htext]
    simp [accepting]
  have hposted : postedResource ⟨decoderName, .COLLECTION, false⟩
      docJson = .ok (.ok ("decoder/a/0", ⟨docName, .DECODER, true⟩)) := by
    have hget : docJson.getString ["name"] = some "decoder/a/0" := by decide +kernel
    have hname : (do Resource.ofName (← Name.ofString "decoder/a/0") : Except Throw Resource) =
        .ok ⟨docName, .DECODER, true⟩ := by decide +kernel
    have hbegins : sameBeginning decoderName.parts docName.parts = .ok true := by decide +kernel
    unfold postedResource
    simp only [hget, hname, hbegins]
    rfl
  unfold Req.prog postSystem postResource
  simp only [hns, hparse, hposted]
  exact ⟨_, rfl⟩

variable {M : Requests Bool MemTree}

abbrev TwoClients : System (Requests Bool MemTree) (Bool × Act) :=
  requests memDriver.toTreeDriver accepting

abbrev OrderlyRun (M : Requests Bool MemTree) : Prop :=
  (TwoClients.guarded (Orderly memDriver.toIDriver)).Reachable M

theorem OrderlyRun.step {M' : Requests Bool MemTree} {l : Bool × Act} (h : OrderlyRun M)
    (hl : Orderly memDriver.toIDriver M l) (hs : Step memDriver.toIDriver accepting M l M') :
    OrderlyRun M' := System.Reachable.step h ⟨hl, hs⟩

/-- Two clients of that store that have sent nothing. -/
def quiet : Requests Bool MemTree := ⟨userStore, fun _ => none⟩

theorem quiet_run : OrderlyRun quiet := .init ⟨userStore_reachable, fun _ => rfl⟩

theorem orderly_send {ι σ : Type} {d : IDriver σ} (M : Requests ι σ) (i : ι) (q : Req) :
    Orderly d M (i, .send q) := by
  intro q' c k n ns hl
  cases hl

/-- A client sends the DELETE and asks for the namespace, which is `user`. -/
theorem asked_run (h : OrderlyRun M) {i : Bool} (hi : M.task i = none)
    (hns : getNamespace M.store docName = some userNs) :
    OrderlyRun { M with task := Function.update M.task i (some deleting) } := by
  obtain ⟨next, hprog, hnext⟩ := prog_deleteUser
  have hsend := h.step (orderly_send M i deleteUser)
    (.send deleteUser fun q p hq => by cases hi.symm.trans hq)
  rw [hprog] at hsend
  have hstep : Step memDriver.toIDriver accepting
      ⟨M.store, Function.update M.task i (some (deleteUser, .call (.getNamespace docName) next))⟩
      (i, .call) _ := .call (Function.update_self ..)
  have hcall := hsend.step ?_ hstep
  · have hresume :
        Prog.resume next ((handle memDriver.toIDriver (.getNamespace docName)).run M.store) =
        .call (.deleteDoc docName) .ret := by
      show next (getNamespace M.store docName) = _
      rw [hns, hnext]
    simp only [hresume, Function.update_idem] at hcall
    exact hcall
  · -- asking brings no document into a namespace
    intro q c k n ns _ hc hfree hns'
    simp only [Function.update_self, Option.some.injEq, Prod.mk.injEq, Prog.call.injEq] at hc
    obtain ⟨-, rfl, -⟩ := hc
    cases hfree.symm.trans hns'

/-- The DELETE that is about to write touches nothing outside `user`. -/
theorem isolating_deleting : ∃ M : Requests Bool MemTree, M.task true = some deleting ∧
    Isolating memDriver.toIDriver accepting M :=
  ⟨_, rfl, isolating accepting memDriver.toTreeDriver _
    (asked_run quiet_run (i := true) rfl userStore_ns)⟩

/-- While one client's DELETE has passed its check, the other client deletes the document and posts
it in `system`: the first DELETE then removes the document of `system`. -/
theorem delete_leaves_namespace :
    ∃ M : Requests Bool MemTree, TwoClients.Reachable M ∧
      ¬ Isolating memDriver.toIDriver accepting M := by
  obtain ⟨k, hpost⟩ := prog_postSystem
  have h₁ := asked_run quiet_run (i := true) rfl userStore_ns
  have h₂ := (asked_run h₁ (i := false) rfl userStore_ns).of_guarded
  have h₃ := h₂.step
    (.call (i := false) (q := deleteUser) (c := .deleteDoc docName) (k := .ret) rfl)
  have h₄ := h₃.step (.send (i := false) postSystem fun q p hq => by
    cases hq
    exact .ret _)
  rw [hpost] at h₄
  have h₅ := h₄.step (.call (i := false) (q := postSystem) (k := k) rfl)
  obtain ⟨M, hM, hstore, htask⟩ : ∃ M : Requests Bool MemTree, TwoClients.Reachable M ∧
      M.store = systemStore ∧ M.task true = some deleting := ⟨_, h₅, rfl, rfl⟩
  have hsystem : getNamespace systemStore docName = some systemNs := by decide +kernel
  have hgone : getNamespace
      (resultState ((handle memDriver.toIDriver (.deleteDoc docName)).run systemStore)) docName =
      none := by decide +kernel
  have hcarries : ¬ deleteUser.Carries systemNs := by
    show ¬ "user" = systemNs.str
    decide
  refine ⟨M, hM, fun h => ?_⟩
  obtain ⟨hkept, -⟩ := h true deleteUser _ _ htask trivial (.call htask) docName systemNs
    (hstore ▸ hsystem) hcarries
  rw [hstore, hgone] at hkept
  cases hkept

end TwoClients

end DistroDefender.Catalog
