import DistroDefender.Catalog.Calls
import DistroDefender.Catalog.Resource

/-!
# The catalog

The requests of `api::catalog::Catalog`, as programs of store calls. Each checks its arguments, for
all but collections asks the store for the namespace of the document, and then makes at most one
call that writes.
-/

namespace DistroDefender.Catalog

open Base Lib Store

structure IValidator where
  validateIntegration : Json → String → OptError
  validateAsset : Json → OptError

/-- What a catalog is configured with, beside its store. -/
structure Config where
  validator : IValidator
  rapidjson : Rapidjson

variable (cfg : Config)

/-- `store::NamespaceId{base::Name{namespaceStr}}`. -/
def parseNamespace (namespaceStr : String) : Except Throw NamespaceId := do
  NamespaceId.ofName (← Name.ofString namespaceStr)

def validate (item : Resource) (namespaceId : String) (content : Json) : OptError :=
  if !item.type.isAsset then some ⟨s!"Invalid resource type '{typeToStr item.type}'"⟩
  else if item.type = .INTEGRATION then
    if namespaceId = "" then
      some ⟨s!"Missing /namespaceid parameter for type '{typeToStr item.type}'"⟩
    else cfg.validator.validateIntegration content namespaceId
  else cfg.validator.validateAsset content

def validateResource (item : Resource) (namespaceId : String) (content : String) : OptError :=
  if !item.type.isAsset then
    some ⟨s!"Invalid resource type '{typeToStr item.type}' for VALIDATE operation"⟩
  else
    match cfg.rapidjson.parse (cstr content) with
    | .error parseError => some parseError
    | .ok contentJson => validate cfg item namespaceId contentJson

def checkResourceInNamespace (item : Resource) (namespaceId operation : String) :
    StoreM OptError := do
  if namespaceId = "" then
    return some ⟨"Namespace id cannot be empty"⟩
  match ← IStore.getNamespace item.name with
  | none =>
    return some ⟨s!"Could not {operation} resource '{item.name.toStr}': " ++
      s!"Resource '{item.name.toStr}' does not have associated namespace."⟩
  | some ns =>
    if namespaceId ≠ ns.str then
      return some ⟨s!"Could not {operation} resource '{item.name.toStr}': " ++
        s!"Does not exist in the '{namespaceId}' namespace"⟩
    return none

/-- The loop of `postResource` over the parts of the collection. The vectors are indexed without a
check, so reading past the end of the content's name is not defined; here it throws. -/
def sameBeginning : List String → List String → Except Throw Bool
  | [], _ => .ok true
  | _ :: _, [] => .error .outOfRange
  | p :: ps, q :: qs => if p ≠ q then .ok false else sameBeginning ps qs

/-- The checks of `postResource` on the content's name: the resource it names. -/
def postedResource (collection : Resource) (contentJson : Json) :
    Except Throw (RespOrError (String × Resource)) :=
  match contentJson.getString ["name"] with
  | none => .ok (.error ⟨"Field 'name' is missing in content"⟩)
  | some contentNameStr =>
    if contentNameStr = "" then .ok (.error ⟨"Field 'name' cannot be empty"⟩)
    else
      match (do Resource.ofName (← Name.ofString contentNameStr) : Except Throw Resource) with
      | .error e => .ok (.error ⟨s!"Invalid content name '{contentNameStr}': {e.what}"⟩)
      | .ok contentResource =>
        if contentResource.type = .COLLECTION then
          .ok (.error ⟨s!"The asset '{contentNameStr}' cannot be added to the store:" ++
            " The name format is not valid as it is identified as a 'collection'"⟩)
        else do
          if ← sameBeginning collection.name.parts contentResource.name.parts then
            return .ok (contentNameStr, contentResource)
          else
            return .error ⟨s!"Invalid content name '{contentResource.name.toStr}' " ++
              s!"for collection '{collection.name.toStr}'"⟩

def postResource (collection : Resource) (namespaceStr content : String) : StoreM OptError := do
  if collection.type ≠ .COLLECTION then
    return some ⟨s!"Expected resource type is '{typeToStr collection.type}', " ++
      s!"but got '{typeToStr .COLLECTION}'"⟩
  match parseNamespace namespaceStr with
  | .error e => return some ⟨s!"Invalid namespace '{namespaceStr}': {e.what}"⟩
  | .ok namespaceId =>
    match cfg.rapidjson.parse (cstr content) with
    | .error parseCheck => return some parseCheck
    | .ok contentJson =>
      match ← Prog.ofExcept (postedResource collection contentJson) with
      | .error e => return some e
      | .ok (contentNameStr, contentResource) =>
        let validationError :=
          if contentResource.validation then validate cfg contentResource namespaceStr contentJson
          else none
        match validationError with
        | some e =>
          return some ⟨s!"An error ocurred while trying to validate '{contentNameStr}' {e.message}"⟩
        | none =>
          match ← utils.add contentResource.name namespaceId contentJson content with
          | some storeError =>
            return some
              ⟨s!"Content '{contentNameStr}' could not be added to the store: {storeError.message}"⟩
          | none => return none

/-- The checks of `putResource` on the content: its JSON and the text of its name. -/
def putContent (item : Resource) (content namespaceId : String) :
    RespOrError (String × Json) :=
  match cfg.rapidjson.parse (cstr content) with
  | .error parseCheck => .error parseCheck
  | .ok contentJson =>
    match contentJson.getString ["name"] with
    | none => .error ⟨"Field 'name' is missing in content"⟩
    | some contentNameStr =>
      match Name.ofString contentNameStr with
      | .error e => .error ⟨s!"Invalid content name '{contentNameStr}': {e.what}"⟩
      | .ok contentName =>
        if contentName ≠ item.name then
          .error ⟨s!"Invalid content name '{contentNameStr}' of '{item.name.toStr}' " ++
            s!"for type '{typeToStr item.type}'"⟩
        else
          match if item.validation then validate cfg item namespaceId contentJson else none with
          | some e =>
            .error ⟨s!"An error occurred while trying to validate '{contentNameStr}' : {e.message}"⟩
          | none => .ok (contentNameStr, contentJson)

def putResource (item : Resource) (content namespaceId : String) : StoreM OptError := do
  if !item.type.isAsset then
    return some ⟨s!"Invalid resource type '{typeToStr item.type}' for PUT operation"⟩
  match ← checkResourceInNamespace item namespaceId "PUT" with
  | some e => return some e
  | none =>
    match putContent cfg item content namespaceId with
    | .error e => return some e
    | .ok (contentNameStr, contentJson) =>
      match ← utils.update item.name contentJson content with
      | some storeError =>
        return some
          ⟨s!"Content '{contentNameStr}' could not be updated in store: {storeError.message}"⟩
      | none => return none

def getResource (resource : Resource) (namespaceId : String) : StoreM (RespOrError String) := do
  if resource.type = .COLLECTION then
    let ns ← Prog.ofExcept (parseNamespace namespaceId)
    match ← IStore.readCol resource.name ns with
    | .error e => return .error e
    | .ok col =>
      let content := col.foldl (fun c item => c.appendString [] item.toStr) (.arr [])
      return .ok (cfg.rapidjson.print content)
  match ← checkResourceInNamespace resource namespaceId "GET" with
  | some e => return .error e
  | none =>
    match ← utils.get resource.name true with
    | .error e => return .error e
    | .ok doc =>
      -- an empty optional is dereferenced where the document has no `/json`
      let json ← Prog.ofExcept (value (doc.get ["json"]))
      return .ok (cfg.rapidjson.print json)

def deleteResource (resource : Resource) (namespaceId : String) : StoreM OptError := do
  if resource.type = .COLLECTION then
    let ns ← Prog.ofExcept (parseNamespace namespaceId)
    match ← IStore.deleteCol resource.name ns with
    | some e =>
      return some ⟨s!"Could not delete collection '{resource.name.toStr}' : {e.message}\n"⟩
    | none => return none
  match ← checkResourceInNamespace resource namespaceId "DELETE" with
  | some e => return some e
  | none => IStore.deleteDoc resource.name

/-! ## The shape of a request -/

/-- The check asks the store once, and passes when the document is in the namespace. -/
theorem checkResourceInNamespace_shape (item : Resource) (namespaceId operation : String) :
    (namespaceId = "" ∧ ∃ e, checkResourceInNamespace item namespaceId operation = .ret (some e)) ∨
    (namespaceId ≠ "" ∧ ∃ answer : Option NamespaceId → OptError,
      checkResourceInNamespace item namespaceId operation =
        .call (.getNamespace item.name) (fun a => .ret (answer a)) ∧
      ∀ a, answer a = none ↔ ∃ ns, a = some ns ∧ namespaceId = ns.str) := by
  unfold checkResourceInNamespace
  by_cases hempty : namespaceId = ""
  · rw [if_pos hempty]
    exact .inl ⟨hempty, _, rfl⟩
  · rw [if_neg hempty]
    refine .inr ⟨hempty, fun a => match a with
      | none => some ⟨s!"Could not {operation} resource '{item.name.toStr}': " ++
          s!"Resource '{item.name.toStr}' does not have associated namespace."⟩
      | some ns => if namespaceId ≠ ns.str then
          some ⟨s!"Could not {operation} resource '{item.name.toStr}': " ++
            s!"Does not exist in the '{namespaceId}' namespace"⟩ else none, ?_, ?_⟩
    · show Prog.call (StoreCall.getNamespace item.name) _ = _
      congr 1
      funext a
      cases a with
      | none => rfl
      | some ns =>
        show (if namespaceId ≠ ns.str then _ else _ : StoreM OptError) = _
        simp only
        split <;> rfl
    · intro a
      cases a with
      | none => simp
      | some ns =>
        by_cases hsame : namespaceId = ns.str
        · simp [hsame]
        · simp [hsame]

/-- The checks of `putResource` pass, where the store answers `owner` for the namespace of the
item. -/
structure PutAccepts (item : Resource) (content namespaceId : String)
    (owner : Option NamespaceId) (contentNameStr : String) (contentJson : Json) : Prop where
  asset : item.type.isAsset = true
  given : namespaceId ≠ ""
  same : ∃ ns, owner = some ns ∧ namespaceId = ns.str
  content : putContent cfg item content namespaceId = .ok (contentNameStr, contentJson)

/-- What the checks of a PUT on its content say. -/
structure PutContent (item : Resource) (content namespaceId contentNameStr : String)
    (contentJson : Json) : Prop where
  parsed : cfg.rapidjson.parse (cstr content) = .ok contentJson
  named : contentJson.getString ["name"] = some contentNameStr
  sameName : Name.ofString contentNameStr = .ok item.name
  validated : item.validation = true → validate cfg item namespaceId contentJson = none

variable {cfg} in
theorem putContent_ok {item : Resource} {content namespaceId contentNameStr : String}
    {contentJson : Json}
    (h : putContent cfg item content namespaceId = .ok (contentNameStr, contentJson)) :
    PutContent cfg item content namespaceId contentNameStr contentJson := by
  unfold putContent at h
  cases hparse : cfg.rapidjson.parse (cstr content) with
  | error e =>
    rw [hparse] at h
    cases h
  | ok parsed =>
    simp only [hparse] at h
    cases hname : parsed.getString ["name"] with
    | none =>
      rw [hname] at h
      cases h
    | some text =>
      simp only [hname] at h
      cases hn : Name.ofString text with
      | error e =>
        rw [hn] at h
        cases h
      | ok name =>
        simp only [hn] at h
        split at h
        · cases h
        rename_i hsame
        split at h
        · cases h
        rename_i hvalid
        cases h
        refine ⟨hparse, hname, by rw [hn, not_not.mp hsame], fun hv => ?_⟩
        rw [if_pos hv] at hvalid
        exact hvalid

/-- A PUT is refused, or asks for the namespace of the item, and then is refused or updates it. -/
theorem putResource_shape (item : Resource) (content namespaceId : String) :
    ((∃ e, putResource cfg item content namespaceId = .ret (some e)) ∧
      ∀ owner c j, ¬ PutAccepts cfg item content namespaceId owner c j) ∨
    ∃ next, putResource cfg item content namespaceId = .call (.getNamespace item.name) next ∧
      ∀ owner : Option NamespaceId,
        ((∃ e, next owner = .ret (some e)) ∧
          ∀ c j, ¬ PutAccepts cfg item content namespaceId owner c j) ∨
        ∃ c j, PutAccepts cfg item content namespaceId owner c j ∧
          next owner = .call (.updateDoc item.name (utils.jsonGenerator j content))
            fun _ => .ret none := by
  unfold putResource
  cases hasset : item.type.isAsset with
  | false =>
    refine .inl ⟨⟨_, rfl⟩, fun owner c j h => ?_⟩
    cases hasset.symm.trans h.asset
  | true =>
    simp only [Bool.not_true, Bool.false_eq_true, if_false]
    rcases checkResourceInNamespace_shape item namespaceId "PUT" with ⟨hempty, e, he⟩ |
      ⟨hgiven, answer, hcheck, hanswer⟩
    · rw [he]
      exact .inl ⟨⟨_, rfl⟩, fun owner c j h => h.given hempty⟩
    · rw [hcheck]
      refine .inr ⟨_, rfl, fun owner => ?_⟩
      simp only
      cases ha : answer owner with
      | some e =>
        refine .inl ⟨⟨_, rfl⟩, fun c j h => ?_⟩
        cases ha.symm.trans ((hanswer owner).mpr h.same)
      | none =>
        cases hput : putContent cfg item content namespaceId with
        | error e =>
          refine .inl ⟨⟨_, rfl⟩, fun c j h => ?_⟩
          cases hput.symm.trans h.content
        | ok found =>
          obtain ⟨c, j⟩ := found
          exact .inr ⟨c, j, ⟨hasset, hgiven, (hanswer owner).mp ha, hput⟩, rfl⟩

/-- A program that ends in an error without a call. -/
inductive Refused : StoreM OptError → Prop
  | ret (e : Error) : Refused (.ret (some e))
  | raise (e : Throw) : Refused (.raise e)

theorem Refused.over {p : StoreM OptError} (h : Refused p) : p.Over := by
  cases h with
  | ret e => exact .ret _
  | raise e => exact .raise e

/-- What is left of a program that reports the answer of its last call. -/
structure Reports (k : OptError → StoreM OptError) : Prop where
  done : k none = .ret none
  failed : ∀ e, ∃ e', k (some e) = .ret (some e')

theorem Reports.over {k : OptError → StoreM OptError} (h : Reports k) (a : OptError) :
    (k a).Over := by
  cases a with
  | none =>
    rw [h.done]
    exact .ret _
  | some e =>
    obtain ⟨e', he'⟩ := h.failed e
    rw [he']
    exact .ret _

/-- A DELETE of a collection makes one call, in the namespace it carries. -/
theorem deleteResource_shape_col {resource : Resource} (htype : resource.type = .COLLECTION)
    (namespaceId : String) :
    Refused (deleteResource resource namespaceId) ∨
    ∃ ns k, parseNamespace namespaceId = .ok ns ∧
      deleteResource resource namespaceId = .call (.deleteCol resource.name ns) k ∧ Reports k := by
  unfold deleteResource
  rw [if_pos htype]
  cases hns : parseNamespace namespaceId with
  | error e => exact .inl (.raise e)
  | ok ns => exact .inr ⟨ns, _, rfl, rfl, rfl, fun e => ⟨_, rfl⟩⟩

/-- A DELETE of a document is refused, or asks for its namespace, and then is refused or deletes
it. -/
theorem deleteResource_shape_doc {resource : Resource} (htype : resource.type ≠ .COLLECTION)
    (namespaceId : String) :
    Refused (deleteResource resource namespaceId) ∨
    ∃ next, deleteResource resource namespaceId = .call (.getNamespace resource.name) next ∧
      ∀ owner : Option NamespaceId, Refused (next owner) ∨
        (∃ ns, owner = some ns ∧ namespaceId = ns.str) ∧
          next owner = .call (.deleteDoc resource.name) .ret := by
  unfold deleteResource
  rw [if_neg htype]
  rcases checkResourceInNamespace_shape resource namespaceId "DELETE" with ⟨-, e, he⟩ |
    ⟨-, answer, hcheck, hanswer⟩
  · rw [he]
    exact .inl (.ret _)
  · rw [hcheck]
    refine .inr ⟨_, rfl, fun owner => ?_⟩
    simp only
    cases ha : answer owner with
    | some e => exact .inl (.ret _)
    | none => exact .inr ⟨(hanswer owner).mp ha, rfl⟩

/-! ### What a POST checks -/

theorem sameBeginning_true {ps qs : List String} (h : sameBeginning ps qs = .ok true) :
    ps <+: qs := by
  induction ps generalizing qs with
  | nil => exact List.nil_prefix
  | cons p ps ih =>
    cases qs with
    | nil => cases h
    | cons q qs =>
      simp only [sameBeginning] at h
      split at h
      · cases h
      · rename_i hpq
        rw [not_not.mp hpq]
        exact (List.prefix_cons_inj q).mpr (ih h)

/-- The content names the document `r`, in the collection. -/
structure Posted (collection : Resource) (contentJson : Json) (text : String) (r : Resource) :
    Prop where
  named : contentJson.getString ["name"] = some text
  parsed : Name.ofString text = .ok r.name
  built : Resource.ofName r.name = .ok r
  document : r.type ≠ .COLLECTION
  within : collection.name.parts <+: r.name.parts

theorem posted_of_ok {collection : Resource} {contentJson : Json} {text : String} {r : Resource}
    (h : postedResource collection contentJson = .ok (.ok (text, r))) :
    Posted collection contentJson text r := by
  unfold postedResource at h
  cases htext : contentJson.getString ["name"] with
  | none =>
    rw [htext] at h
    cases h
  | some text' =>
    simp only [htext] at h
    split at h
    · cases h
    cases hname : Name.ofString text' with
    | error e =>
      simp only [hname] at h
      cases h
    | ok name =>
      cases hbuilt : Resource.ofName name with
      | error e =>
        simp only [hname, bind, Except.bind, hbuilt] at h
        cases h
      | ok r' =>
        simp only [hname, bind, Except.bind, hbuilt] at h
        split at h
        · cases h
        rename_i htype
        have hn : r'.name = name := by
          obtain ⟨-, ⟨-, rfl⟩ | ⟨-, -, rfl⟩⟩ := Resource.ofName_cases hbuilt <;> rfl
        cases hsame : sameBeginning collection.name.parts r'.name.parts with
        | error e =>
          rw [hsame] at h
          cases h
        | ok b =>
          cases b with
          | false =>
            rw [hsame] at h
            cases h
          | true =>
            rw [hsame] at h
            cases h
            exact ⟨htext, hn ▸ hname, hn ▸ hbuilt, htype, sameBeginning_true hsame⟩

section Posted

variable {collection r : Resource} {contentJson : Json} {text : String}

/-- No part of the name has a NUL in it: the text of the name is a C string. -/
theorem Posted.cstr_first (h : Posted collection contentJson text r) :
    cstr r.name.first = r.name.first := by
  apply cstr_of_not_mem
  intro hnul
  have hmem : r.name.first ∈ split text SEPARATOR_C := by
    rw [← Name.ofString_eq_ok.mp h.parsed]
    exact List.head_mem _
  have htext := mem_of_mem_split hmem hnul
  have hget := h.named
  unfold Json.getString at hget
  split at hget
  · cases hget
    exact not_mem_cstr _ htext
  · cases hget

theorem Posted.cases (h : Posted collection contentJson text r) :
    r.name.parts.length = 3 ∧ strToType r.name.first ≠ .UNKNOWN ∧
      strToType r.name.first ≠ .COLLECTION ∧
      r = ⟨r.name, strToType r.name.first, (strToType r.name.first).isAsset⟩ := by
  obtain ⟨hunknown, ⟨-, hr⟩ | ⟨hlen, hcol, hr⟩⟩ := Resource.ofName_cases h.built
  · exact absurd (congrArg Resource.type hr) h.document
  · rw [h.cstr_first] at hunknown hcol hr
    exact ⟨hlen, hunknown, hcol, hr⟩

end Posted

/-- The checks of `postResource` pass: the content is to be added as `r` in `ns`. -/
structure PostAccepts (collection : Resource) (namespaceStr content : String) (r : Resource)
    (ns : NamespaceId) (contentJson : Json) : Prop where
  intoCollection : collection.type = .COLLECTION
  parsedNs : parseNamespace namespaceStr = .ok ns
  parsed : cfg.rapidjson.parse (cstr content) = .ok contentJson
  posted : ∃ text, Posted collection contentJson text r
  validated : r.validation = true → validate cfg r namespaceStr contentJson = none

/-- A POST is refused, or creates a document in the namespace it carries. -/
theorem postResource_shape (collection : Resource) (namespaceStr content : String) :
    Refused (postResource cfg collection namespaceStr content) ∨
    ∃ r ns j k, PostAccepts cfg collection namespaceStr content r ns j ∧
      postResource cfg collection namespaceStr content =
        .call (.createDoc r.name ns (utils.jsonGenerator j content)) k ∧ Reports k := by
  unfold postResource
  split
  · exact .inl (.ret _)
  rename_i hcol
  cases hns : parseNamespace namespaceStr with
  | error e => exact .inl (.ret _)
  | ok ns =>
    cases hparse : cfg.rapidjson.parse (cstr content) with
    | error e => exact .inl (.ret _)
    | ok j =>
      simp only
      cases hposted : postedResource collection j with
      | error e => exact .inl (.raise _)
      | ok posted =>
        cases posted with
        | error e => exact .inl (.ret _)
        | ok found =>
          obtain ⟨text, r⟩ := found
          simp only [Prog.ofExcept, Prog.ret_bind]
          generalize hchecked : (if r.validation = true then _ else _ : OptError) = checked
          cases checked with
          | some e => exact .inl (.ret _)
          | none =>
            refine .inr ⟨r, ns, j, _, ⟨not_not.mp hcol, hns, hparse, ⟨text, posted_of_ok hposted⟩,
              fun hv => ?_⟩, rfl, rfl, fun e => ⟨_, rfl⟩⟩
            rw [if_pos hv] at hchecked
            exact hchecked

end DistroDefender.Catalog
