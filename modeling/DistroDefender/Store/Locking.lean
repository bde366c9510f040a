import DistroDefender.Store.Clients

/-!
# Reads under the lock of the store

`reads_whole` says what holds of the runs in which nothing touches a document while an `updateDoc`
has it open: every read returns a content that some call wrote, in full, and so does every file at
rest. The invariant (`Inv`) is that an open file is open once and empty, and that every other file
holds a text some call wrote; `inv_step` carries it over every step of every client.
-/

namespace DistroDefender.Store

open Base Lib

section

variable {ι : Type} [DecidableEq ι]

/-- No client's `updateDoc` of `n` is between opening the file and writing it. -/
def Undisturbed (M : Clients ι) (n : Name) : Prop :=
  ∀ j c r, M.pc j ≠ .opened (.updateDoc n c) r

/-- The condition on a step: a read, and the opening of an `updateDoc`, find no `updateDoc` of the
same document between opening and writing. -/
def Orderly (M : Clients ι) (l : ι × Act) : Prop :=
  ∀ q, M.pc l.1 = .locked q →
    (l.2 = .read ∨ l.2 = .truncate ∧ ∃ n c, q = .updateDoc n c) → Undisturbed M q.name

/-- What a call wrote to `n`, as its text. -/
def WholeText (R : Rapidjson) (M : Clients ι) (n : Name) (text : String) : Prop :=
  ∃ c ∈ M.written n, text = R.print c

/-- Every read returned, in full, a content some call wrote to that name; and where no call is under
way every file holds, in full, a content some call wrote. -/
structure Whole (R : Rapidjson) (M : Clients ι) : Prop where
  reads : ∀ i n j, M.pc i = .done (.readDoc n) (.doc j) →
    ∃ c ∈ M.written n, j = R.document (R.print c)
  rest : (∀ i, M.pc i = .idle ∨ ∃ q res, M.pc i = .done q res) →
    ∀ n ns r text, virtualToRealName n ns = .ok r → M.files r = some text → WholeText R M n text

/-! ## The invariant -/

variable {R : Rapidjson} {M M' : Clients ι}

/-- What holds along the runs whose steps are orderly. -/
structure Inv (R : Rapidjson) (M : Clients ι) : Prop where
  exclusion : RwLock.Exclusion fun j => (M.pc j).held
  /-- An open file is the one of the call's name, and truncated. -/
  opened : ∀ i q r, M.pc i = .opened q r →
    (∃ ns, virtualToRealName q.name ns = .ok r) ∧ q.content ≠ none ∧ M.files r = some ""
  /-- No file is open twice. -/
  once : ∀ i j q q' r, M.pc i = .opened q r → M.pc j = .opened q' r → i = j
  /-- A file that is not open holds a text some call wrote. -/
  closed : ∀ n ns r text, virtualToRealName n ns = .ok r → (∀ i q, M.pc i ≠ .opened q r) →
    M.files r = some text → WholeText R M n text
  /-- What a read returned is a content some call wrote. -/
  reads : ∀ i n j, M.pc i = .finished (.readDoc n) (.doc j) ∨ M.pc i = .done (.readDoc n) (.doc j) →
    ∃ c ∈ M.written n, j = R.document (R.print c)

theorem targetIn_eq_ok {n r : Name} {ns : NamespaceId} :
    targetIn n ns = .ok r ↔ virtualToRealName n ns = .ok r := by
  unfold targetIn
  cases virtualToRealName n ns with
  | ok r' => simp
  | error e => simp

theorem target_real {cache : DBDocNames} {q : Req} {r : Name} (h : target cache q = .ok r) :
    ∃ ns, virtualToRealName q.name ns = .ok r := by
  unfold target at h
  simp only at h
  split at h
  all_goals
    split at h
    · cases h
    · exact ⟨_, targetIn_eq_ok.mp h⟩

theorem target_ne_doc {cache : DBDocNames} {q : Req} {j : Doc} :
    target cache q ≠ .error (.doc j) := by
  have hreal : ∀ n ns, targetIn n ns ≠ .error (.doc j) := by
    intro n ns
    unfold targetIn
    cases virtualToRealName n ns <;> simp
  unfold target
  simp only
  split <;> split <;> first | exact hreal _ _ | simp

theorem held_goto (i : ι) (p : Pc) :
    (fun j => ((M.goto i p).pc j).held) = Function.update (fun j => (M.pc j).held) i p.held := by
  funext j
  show ((Function.update M.pc i p j).held) = _
  rw [Function.update_apply, Function.update_apply]
  split <;> rfl

/-- A client keeps the lock it has. -/
theorem held_keep {i : ι} {m : Option Mode} (h : (M.pc i).held = m) :
    Function.update (fun j => (M.pc j).held) i m = fun j => (M.pc j).held := by
  rw [← h]
  exact Function.update_eq_self i _

theorem pc_goto (i k : ι) (p : Pc) : (M.goto i p).pc k = if k = i then p else M.pc k :=
  Function.update_apply _ _ _ _

theorem Inv.opened_goto {i : ι} {p : Pc} (hfrom : ∀ q r, M.pc i ≠ .opened q r)
    (hto : ∀ q r, p ≠ .opened q r) (k : ι) (q : Req) (r : Name) :
    (M.goto i p).pc k = .opened q r ↔ M.pc k = .opened q r := by
  rw [pc_goto]
  split
  · rename_i hk
    rw [hk]
    exact iff_of_false (hto q r) (hfrom q r)
  · rfl

/-- A client moves on without touching a file: the lock allows its new place, and what it returns
was written. -/
theorem Inv.goto (h : Inv R M) {i : ι} {p : Pc}
    (hex : RwLock.Exclusion (Function.update (fun j => (M.pc j).held) i p.held))
    (hfrom : ∀ q r, M.pc i ≠ .opened q r) (hto : ∀ q r, p ≠ .opened q r)
    (hread : ∀ n j, p = .finished (.readDoc n) (.doc j) ∨ p = .done (.readDoc n) (.doc j) →
      ∃ c ∈ M.written n, j = R.document (R.print c)) : Inv R (M.goto i p) where
  exclusion := by
    rw [held_goto]
    exact hex
  opened k q r hk := h.opened k q r ((opened_goto hfrom hto k q r).mp hk)
  once k k' q q' r hk hk' := h.once k k' q q' r ((opened_goto hfrom hto k q r).mp hk)
    ((opened_goto hfrom hto k' q' r).mp hk')
  closed n ns r text hr hno hf :=
    h.closed n ns r text hr (fun k q hk => hno k q ((opened_goto hfrom hto k q r).mpr hk)) hf
  reads k n j hk := by
    rw [pc_goto] at hk
    split at hk
    · exact hread n j hk
    · exact h.reads k n j hk

/-- A call that finishes under its lock has read nothing that was not written. -/
theorem Inv.finishes (h : Inv R M) {i : ι} {q : Req} {res : Res} (hi : M.pc i = .locked q)
    (hread : ∀ n j, q = .readDoc n → res = .doc j → ∃ c ∈ M.written n, j = R.document (R.print c)) :
    Inv R (M.goto i (.finished q res)) := by
  refine h.goto ?_ ?_ (fun _ _ hp => by cases hp) fun n j hp => ?_
  · rw [held_keep (by rw [hi]; rfl)]
    exact h.exclusion
  · intro q' r hq'
    cases hi.symm.trans hq'
  · rcases hp with hp | hp
    · cases hp
      exact hread n j rfl rfl
    · cases hp

omit [DecidableEq ι] in
/-- Before a call touches its file no other client has it open. -/
theorem Inv.unopened (h : Inv R M) {i : ι} {q : Req} {r : Name} (hi : M.pc i = .locked q)
    (ht : target M.cache q = .ok r) (hclear : q.mode = .shared → Undisturbed M q.name) (j : ι)
    (q' : Req) : M.pc j ≠ .opened q' r := by
  intro hj
  obtain ⟨⟨ns', hr'⟩, hcontent, -⟩ := h.opened j q' r hj
  obtain ⟨ns, hr⟩ := target_real ht
  have hne : i ≠ j := by
    rintro rfl
    cases hi.symm.trans hj
  have hmodes := h.exclusion i j q.mode q'.mode hne (by simp only [hi, Pc.held])
    (by simp only [hj, Pc.held])
  cases q' with
  | readDoc n => exact hcontent rfl
  | createDoc n ns c | upsertDoc n ns c | deleteDoc n => cases hmodes.2
  | updateDoc n c =>
    have hname : n = q.name := (virtualToRealName_inj hr' hr).1
    exact hclear hmodes.1 j c r (hname ▸ hj)

theorem overlay_empty (text : String) : overlay text "" = text := by
  unfold overlay
  simp

omit [DecidableEq ι] in
/-- What was written stays written. -/
theorem mem_written {n n' : Name} {c c' : Doc} (h : c' ∈ M.written n') :
    c' ∈ (M.wrote n c).written n' := by
  show c' ∈ Function.update M.written n _ n'
  rw [Function.update_apply]
  split
  · rename_i hn
    rw [← hn]
    exact List.mem_cons_of_mem _ h
  · exact h

/-- A client touches the file `r`, which no other one has open, and moves on under its lock. -/
theorem Inv.touch (h : Inv R M) {i : ι} {p : Pc} {r : Name}
    (hpc : ∀ k, M'.pc k = if k = i then p else M.pc k) (hheld : p.held = (M.pc i).held)
    (hfiles : ∀ r', r' ≠ r → M'.files r' = M.files r')
    (hwritten : ∀ n c, c ∈ M.written n → c ∈ M'.written n)
    (halone : ∀ k q, k ≠ i → M.pc k ≠ .opened q r) (hfrom : ∀ q r', M.pc i = .opened q r' → r' = r)
    (hto : ∀ q r', p = .opened q r' → r' = r ∧ (∃ ns, virtualToRealName q.name ns = .ok r) ∧
      q.content ≠ none ∧ M'.files r = some "")
    (hclosed : (∀ q, p ≠ .opened q r) → ∀ n ns text, virtualToRealName n ns = .ok r →
      M'.files r = some text → WholeText R M' n text)
    (hread : ∀ n j, ¬ (p = .finished (.readDoc n) (.doc j) ∨ p = .done (.readDoc n) (.doc j))) :
    Inv R M' where
  exclusion := by
    have hsame : (fun j => (M'.pc j).held) = fun j => (M.pc j).held := by
      funext j
      rw [hpc]
      split
      · rename_i hj
        rw [hj, hheld]
      · rfl
    rw [hsame]
    exact h.exclusion
  opened := by
    intro k q r' hk
    rw [hpc] at hk
    split at hk
    · obtain ⟨rfl, hreal, hcontent, hempty⟩ := hto q r' hk
      exact ⟨hreal, hcontent, hempty⟩
    · rename_i hki
      obtain ⟨hreal, hcontent, hempty⟩ := h.opened k q r' hk
      have hne : r' ≠ r := by
        rintro rfl
        exact halone k q hki hk
      exact ⟨hreal, hcontent, (hfiles r' hne).trans hempty⟩
  once := by
    intro k k' q q' r' hk hk'
    rw [hpc] at hk hk'
    split at hk <;> split at hk'
    · rename_i hki hki'
      rw [hki, hki']
    · rename_i hki'
      rw [(hto q r' hk).1] at hk'
      exact absurd hk' (halone k' q' hki')
    · rename_i hki _
      rw [(hto q' r' hk').1] at hk
      exact absurd hk (halone k q hki)
    · exact h.once k k' q q' r' hk hk'
  closed := by
    intro n ns r' text hr hno hfile
    by_cases hr' : r' = r
    · rw [hr'] at hr hno hfile
      refine hclosed (fun q hq => hno i q ?_) n ns text hr hfile
      rw [hpc, if_pos rfl]
      exact hq
    · rw [hfiles r' hr'] at hfile
      obtain ⟨c, hc, rfl⟩ := h.closed n ns r' text hr (fun k q hk => by
        refine hno k q ?_
        rw [hpc, if_neg]
        · exact hk
        · rintro rfl
          exact hr' (hfrom q r' hk)) hfile
      exact ⟨c, hwritten n c hc, rfl⟩
  reads := by
    intro k n j hk
    rw [hpc] at hk
    split at hk
    · exact absurd hk (hread n j)
    · obtain ⟨c, hc, rfl⟩ := h.reads k n j hk
      exact ⟨c, hwritten n c hc, rfl⟩

/-- Opening a file for writing. -/
theorem Inv.truncate (h : Inv R M) {i : ι} {q : Req} {r : Name} (hi : M.pc i = .locked q)
    (ht : target M.cache q = .ok r) (hf : MayOpen q (M.files r)) (hl : Orderly M (i, .truncate)) :
    Inv R ((M.setFile r (some "")).goto i (.opened q r)) := by
  obtain ⟨⟨c, hc, -⟩, -⟩ := hf
  have hclear : q.mode = .shared → Undisturbed M q.name := by
    intro hshared
    refine hl q hi (.inr ⟨rfl, ?_⟩)
    cases q with
    | readDoc n => cases hc
    | updateDoc n c' => exact ⟨n, c', rfl⟩
    | createDoc | upsertDoc | deleteDoc => cases hshared
  have hempty : ((M.setFile r (some "")).goto i (.opened q r)).files r = some "" :=
    Function.update_self ..
  refine h.touch (r := r) (pc_goto i · _) ?_ (fun r' hr' => Function.update_of_ne hr' _ _)
    (fun _ _ hc => hc) (fun k q' _ => h.unopened hi ht hclear k q') ?_ ?_ ?_ ?_
  · rw [hi]
    rfl
  · intro q' r' hq'
    cases hi.symm.trans hq'
  · intro q' r' hq'
    cases hq'
    exact ⟨rfl, target_real ht, by rw [hc]; exact Option.some_ne_none c, hempty⟩
  · exact fun hno => absurd rfl (hno q)
  · rintro n j (hp | hp) <;> cases hp

/-- Writing the whole text to an open file. -/
theorem Inv.write (h : Inv R M) {i : ι} {q : Req} {r : Name} {c : Doc} {cache : DBDocNames}
    (hi : M.pc i = .opened q r) :
    Inv R { ((M.setFile r (some (overlay (R.print c) ((M.files r).getD "")))).wrote q.name c).goto i
      (.finished q .ok) with cache := cache } := by
  obtain ⟨⟨ns₀, hreal⟩, -, hempty⟩ := h.opened i q r hi
  have htext : overlay (R.print c) ((M.files r).getD "") = R.print c := by
    rw [hempty, Option.getD_some, overlay_empty]
  rw [htext]
  refine h.touch (r := r) (pc_goto i · _) ?_ (fun r' hr' => Function.update_of_ne hr' _ _)
    (fun _ _ hc => mem_written hc) ?_ ?_ ?_ ?_ ?_
  · rw [hi]
    rfl
  · intro k q' hki hk
    exact hki (h.once k i q' q r hk hi)
  · intro q' r' hq'
    cases hi.symm.trans hq'
    rfl
  · rintro q' r' hq'
    cases hq'
  · intro _ n ns text hr hfile
    cases (Function.update_self ..).symm.trans hfile
    have hname : n = q.name := (virtualToRealName_inj hr hreal).1
    refine ⟨c, ?_, rfl⟩
    show c ∈ Function.update M.written q.name _ n
    rw [hname, Function.update_self]
    exact List.mem_cons_self
  · rintro n j (hp | hp) <;> cases hp

/-- Removing a file: the exclusive holder is alone. -/
theorem Inv.remove (h : Inv R M) {i : ι} {name r : Name} {cache : DBDocNames} (dirs : Bool)
    (hi : M.pc i = .locked (.deleteDoc name)) :
    Inv R { (M.setFile r none).goto i (.finished (.deleteDoc name) (if dirs then .ok else .error))
      with cache := cache } := by
  refine h.touch (r := r) (pc_goto i · _) ?_ (fun r' hr' => Function.update_of_ne hr' _ _)
    (fun _ _ hc => hc) ?_ ?_ ?_ ?_ ?_
  · rw [hi]
    rfl
  · intro k q' hki hk
    exact hki (h.exclusion.alone (i := i) (by simp only [hi]; rfl)
      (by simp only [hk]; exact Option.some_ne_none _))
  · intro q' r' hq'
    cases hi.symm.trans hq'
  · intro q' r' hq'
    cases hq'
  · intro _ n ns text _ hfile
    cases (Function.update_self ..).symm.trans hfile
  · rintro n j (hp | hp) <;> cases hp

theorem inv_step {l : ι × Act} (h : Inv R M) (hl : Orderly M l) (hs : Step R M l M') :
    Inv R M' := by
  cases hs with
  | invoke q hi =>
    refine h.goto (h.exclusion.release _) ?_ (fun _ _ hp => by cases hp) fun _ _ hp => ?_
    · rintro q' r hq'
      rcases hi with hi | ⟨q', res, hi⟩ <;> cases hi.symm.trans hq'
    · rcases hp with hp | hp <;> cases hp
  | acquire hi free =>
    refine h.goto (h.exclusion.acquire free) ?_ (fun _ _ hp => by cases hp) fun _ _ hp => ?_
    · rintro q' r hq'
      cases hi.symm.trans hq'
    · rcases hp with hp | hp <;> cases hp
  | reject hi ht =>
    refine h.finishes hi fun n j hq hres => ?_
    rw [hres] at ht
    exact absurd ht target_ne_doc
  | refuse hi ht => exact h.finishes hi fun n j _ hres => by cases hres
  | @read i name r text hi ht hf =>
    have hclear := hl _ hi (.inl rfl)
    obtain ⟨ns, hr⟩ := target_real ht
    obtain ⟨c, hc, rfl⟩ := h.closed name ns r text hr
      (h.unopened hi ht fun _ => hclear) hf
    refine h.finishes hi fun n j hq hres => ?_
    cases hq
    cases hres
    exact ⟨c, hc, rfl⟩
  | truncate hi ht hf => exact h.truncate hi ht hf hl
  | write hi hc => exact h.write hi
  | remove dirs hi ht hf => exact h.remove dirs hi
  | @release i q res hi =>
    refine h.goto (h.exclusion.release _) ?_ (fun _ _ hp => by cases hp) fun n j hp => ?_
    · rintro q' r hq'
      cases hi.symm.trans hq'
    · rcases hp with hp | hp <;> cases hp
      exact h.reads i n j (.inl hi)

theorem inv_init (h : (clients R).init M) : Inv R M := by
  obtain ⟨-, hfiles, hidle, -⟩ := h
  have hno : ∀ i q r, M.pc i ≠ .opened q r := by
    intro i q r hi
    cases (hidle i).symm.trans hi
  refine ⟨.of_free fun i => by rw [hidle i]; rfl, fun i q r hi => absurd hi (hno i q r),
    fun i _ q _ r hi _ => absurd hi (hno i q r), fun n ns r text _ _ hf => ?_, fun i n j hi => ?_⟩
  · cases (hfiles r).symm.trans hf
  · rcases hi with hi | hi <;> cases (hidle i).symm.trans hi

theorem inv_inductive (R : Rapidjson) :
    ((clients (ι := ι) R).guarded Orderly).Inductive (Inv R) where
  init _ h := inv_init h
  step _ _ _ h hs := inv_step h hs.1 hs.2

/-- In every run whose steps are orderly, reads return whole contents and files at rest hold
them. -/
theorem reads_whole (R : Rapidjson) (M : Clients ι)
    (h : ((clients R).guarded Orderly).Reachable M) : Whole R M where
  reads i n j hi := ((inv_inductive R).holds h).reads i n j (.inr hi)
  rest hrest n ns r text hr hf := by
    refine ((inv_inductive R).holds h).closed n ns r text hr (fun i q hi => ?_) hf
    rcases hrest i with hi' | ⟨q', res, hi'⟩ <;> cases hi'.symm.trans hi

end

/-! ## Two runs -/

/-- rapidjson on the three literals. -/
def literals : Rapidjson where
  parse text :=
    if text = "true" then .ok (.bool true)
    else if text = "false" then .ok (.bool false)
    else if text = "null" then .ok .null
    else .error ⟨"Parse error"⟩
  print
    | .bool true => "true"
    | .bool false => "false"
    | _ => "null"

section Runs

def sampleReal : Name := ⟨["namespaces", "system", "decoder"], by decide, by decide, by decide⟩

theorem sample_real : virtualToRealName decoderName systemNs = .ok sampleReal := by
  rw [virtualToRealName_eq_ok]
  rfl

/-- One of two clients has created the document with the content `true`, the other has not called
yet. -/
structure Created (M : Clients Bool) : Prop where
  cache : M.cache.getNamespaceId decoderName = some systemNs
  file : M.files sampleReal = some "true"
  writer : M.pc false = .done (.createDoc decoderName systemNs (.bool true)) .ok
  reader : M.pc true = .idle
  written : M.written decoderName = [.bool true]

theorem orderly_of_ne {ι : Type} (M : Clients ι) {i : ι} {a : Act} (hr : a ≠ .read)
    (ht : a ≠ .truncate) : Orderly M (i, a) := by
  rintro q - (ha | ⟨ha, -⟩)
  · exact absurd ha hr
  · exact absurd ha ht

/-- The orderly runs of two clients. -/
abbrev OrderlyRun (M : Clients Bool) : Prop := ((clients literals).guarded Orderly).Reachable M

theorem OrderlyRun.step {M M' : Clients Bool} {l : Bool × Act} (h : OrderlyRun M)
    (hl : Orderly M l) (hs : Step literals M l M') : OrderlyRun M' :=
  System.Reachable.step h ⟨hl, hs⟩

theorem created_run : ∃ M, OrderlyRun M ∧ Created M := by
  let M₀ : Clients Bool := ⟨.empty, fun _ => none, fun _ => .idle, fun _ => []⟩
  let q : Req := .createDoc decoderName systemNs (.bool true)
  have h₀ : OrderlyRun M₀ := .init ⟨rfl, fun _ => rfl, fun _ => rfl, fun _ => rfl⟩
  have h₁ := h₀.step (orderly_of_ne _ (by decide) (by decide)) (.invoke (i := false) q (.inl rfl))
  have h₂ := h₁.step (orderly_of_ne _ (by decide) (by decide))
    (.acquire (i := false) (q := q) rfl fun j a hj => by cases j <;> cases hj)
  have ht : target .empty q = .ok sampleReal := targetIn_eq_ok.mpr sample_real
  have hopen : MayOpen q none := ⟨⟨.bool true, rfl, by decide⟩, rfl⟩
  have h₃ := h₂.step (fun q' hq' ha => by
      cases hq'
      rcases ha with ha | ⟨-, n, c, hq⟩
      · cases ha
      · exact absurd hq (by simp [q])) (.truncate (i := false) (q := q) rfl ht hopen)
  have h₄ := h₃.step (orderly_of_ne _ (by decide) (by decide))
    (.write (i := false) (q := q) (c := .bool true) rfl rfl)
  have h₅ := h₄.step (orderly_of_ne _ (by decide) (by decide))
    (.release (i := false) (q := q) rfl)
  refine ⟨_, h₅, ?_, ?_, rfl, rfl, ?_⟩
  · rfl
  · rfl
  · rfl

theorem Created.target {M : Clients Bool} (h : Created M) (q : Req)
    (hq : q = .readDoc decoderName ∨ ∃ c, q = .updateDoc decoderName c) :
    Store.target M.cache q = .ok sampleReal := by
  rcases hq with rfl | ⟨c, rfl⟩
  · simp only [Store.target, h.cache, targetIn_eq_ok, sample_real]
  · simp only [Store.target, h.cache, targetIn_eq_ok, sample_real]

/-- The second client reads what the first one created. -/
theorem reads_whole_created :
    ∃ M : Clients Bool, Whole literals M ∧
    M.pc true = .done (.readDoc decoderName) (.doc (.bool true)) := by
  obtain ⟨M, h₀, hM⟩ := created_run
  have h₁ := h₀.step (orderly_of_ne _ (by decide) (by decide))
    (.invoke (i := true) (.readDoc decoderName) (.inl hM.reader))
  have h₂ := h₁.step (orderly_of_ne _ (by decide) (by decide))
    (.acquire (i := true) (q := .readDoc decoderName) rfl fun j a hj => by
      cases j
      · simp [pc_goto, hM.writer, Pc.held] at hj
      · cases hj)
  have h₃ := h₂.step (fun q' hq' _ j c r hj => by
      cases j
      · simp [pc_goto, hM.writer] at hj
      · cases hj)
    (.read (i := true) (n := decoderName) rfl (hM.target _ (.inl rfl)) hM.file)
  have h₄ := h₃.step (orderly_of_ne _ (by decide) (by decide))
    (.release (i := true) (q := .readDoc decoderName) rfl)
  exact ⟨_, reads_whole literals _ h₄, rfl⟩

/-- The second client reads while the first one has the document open in `updateDoc`: the file is
empty, and the read returns a null document nobody wrote. -/
theorem read_torn :
    ∃ M : Clients Bool, (clients literals).Reachable M ∧ ¬ Whole literals M := by
  obtain ⟨M, h, hM⟩ := created_run
  have h₀ : (clients literals).Reachable M := h.of_guarded
  have h₁ := h₀.step
    (.invoke (i := false) (.updateDoc decoderName (.bool false)) (.inr ⟨_, _, hM.writer⟩))
  have h₂ := h₁.step (.acquire (i := false) (q := .updateDoc decoderName (.bool false)) rfl
    fun j a hj => by
      cases j
      · cases hj
      · simp [pc_goto, hM.reader, Pc.held] at hj)
  have hopen : MayOpen (.updateDoc decoderName (.bool false)) (M.files sampleReal) :=
    ⟨⟨.bool false, rfl, by decide⟩, by rw [hM.file]; exact Option.some_ne_none _⟩
  have h₃ := h₂.step (.truncate (i := false) (q := .updateDoc decoderName (.bool false)) rfl
    (hM.target _ (.inr ⟨_, rfl⟩)) hopen)
  have h₄ := h₃.step (.invoke (i := true) (.readDoc decoderName) (.inl hM.reader))
  have h₅ := h₄.step (.acquire (i := true) (q := .readDoc decoderName) rfl fun j a hj => by
    cases j <;> cases hj
    exact ⟨rfl, rfl⟩)
  have h₆ := h₅.step
    (.read (i := true) (n := decoderName) (t := "") rfl (hM.target _ (.inl rfl)) rfl)
  have h₇ := h₆.step (.release (i := true) (q := .readDoc decoderName) rfl)
  refine ⟨_, h₇, fun hwhole => ?_⟩
  obtain ⟨c, hc, hj⟩ := hwhole.reads true decoderName .null rfl
  change c ∈ M.written decoderName at hc
  rw [hM.written, List.mem_singleton] at hc
  subst hc
  cases hj

end Runs

end DistroDefender.Store
