import AliasScript.Proofs.Machine.Sound

/-!
# How the store grows

The items that each change of the store adds, and that memory stays in order if these are. A change
of the store adds a few items and keeps the others; nothing else is to be shown of it.
-/

namespace AliasScript

namespace Frames

variable (fs : Frames) (frame : Frame) {f : FrameId}

/-- A new frame changes no parent. -/
theorem parent?_push_of_lt (hf : f < fs.size) : parent? (fs.push frame) f = parent? fs f := by
  simp [parent?, Array.getElem?_push, Nat.ne_of_lt hf]

/-- The parent of a new frame is the one that it was made with. -/
theorem parent?_push_self : parent? (fs.push frame) fs.size = frame.parent := by
  simp [parent?]

/-- A new frame changes no binding of the others. -/
theorem valueIn_push_of_ne (hf : f ≠ fs.size) (x : String) :
    valueIn (fs.push frame) f x = valueIn fs f x := by
  simp [valueIn, Array.getElem?_push, hf]

/-- A new frame binds what it was made with. -/
theorem valueIn_push_self (x : String) :
    valueIn (fs.push frame) fs.size x = frame.bindings.get? x := by
  simp [valueIn]

/-- Only frames that are there bind names. -/
theorem lt_size_of_valueIn {fs : Frames} {x : String} {v : Value} (h : valueIn fs f x = some v) :
    f < fs.size := by
  obtain ⟨frame, hframe, -⟩ := Option.bind_eq_some_iff.1 h
  exact (Array.getElem?_eq_some_iff.1 hframe).1

end Frames

/-- What is in an array after one of its elements was changed. -/
theorem mem_of_mem_modify {α : Type} {xs : Array α} {id : Nat} {f : α → α} {y : α}
    (h : y ∈ xs.modify id f) : y ∈ xs ∨ ∃ x, xs[id]? = some x ∧ f x = y := by
  obtain ⟨j, hj⟩ := Array.mem_iff_getElem?.1 h
  rw [Array.getElem?_modify] at hj
  split at hj
  · next heq =>
    subst heq
    exact .inr (Option.map_eq_some_iff.1 hj)
  · exact .inl (Array.mem_of_getElem? hj)

/-- What a name is bound to is among the bindings. -/
theorem Bindings.mem_of_get? {α : Type} {b : Bindings α} {x : String} {a : α}
    (h : b.get? x = some a) : (x, a) ∈ b := by
  obtain ⟨before, after, rfl, -⟩ := List.lookup_eq_some_iff.1 h
  simp

/-- In bindings of one name no other name is bound. -/
theorem Bindings.get?_singleton {α : Type} {name x : String} {a a' : α}
    (h : Bindings.get? [(name, a)] x = some a') : x = name ∧ a' = a := by
  simpa using mem_of_get? h

/-- Inserting a thing adds that thing only. -/
theorem Bindings.get?_of_insert {α : Type} {b : Bindings α} {name x : String} {a a' : α}
    (h : (b.insert name a).get? x = some a') : b.get? x = some a' ∨ a' = a := by
  by_cases hx : x = name
  · subst hx
    rw [get?_insert_self] at h
    exact .inr (Option.some.inj h).symm
  · rw [get?_insert_ne _ _ hx] at h
    exact .inl h

namespace Store

variable {s : Store} {i : Item}

/-! ### Items that changes add -/

/-- A declaration brings one binding at most. -/
theorem has_define {f : FrameId} (hf : f < s.frames.size) {x : String} {v : Value}
    (h : Has { s with frames := s.frames.define f x v } i) : s.Has i ∨ i = .binding f x v := by
  cases i with
  | binding f' x' v' =>
    rw [Has, Frames.valueIn_define _ hf] at h
    split at h
    · next heq =>
      cases h
      exact .inr (by rw [heq.1, heq.2])
    · exact .inl h
  | _ => exact .inl h

/-- A new frame brings its bindings. -/
theorem has_addFrame {parent : FrameId} {bindings : Bindings Value}
    (h : (s.addFrame parent bindings).2.Has i) :
    s.Has i ∨ ∃ x v, bindings.get? x = some v ∧ i = .binding s.frames.size x v := by
  cases i with
  | binding f x v =>
    by_cases hf : f = s.frames.size
    · subst hf
      rw [Has, addFrame, Frames.valueIn_push_self] at h
      exact .inr ⟨x, v, h, rfl⟩
    · rw [Has, addFrame, Frames.valueIn_push_of_ne _ _ hf] at h
      exact .inl h
  | _ => exact .inl h

/-- A new array brings its elements. -/
theorem has_addArray {elements : Array Value} (h : (s.addArray elements).2.Has i) :
    s.Has i ∨ ∃ v ∈ elements, i = .element v := by
  cases i with
  | element v =>
    rcases h with ⟨xs, hxs, hv⟩ | h
    · rcases Array.mem_push.1 hxs with hxs | rfl
      · exact .inl (.inl ⟨xs, hxs, hv⟩)
      · exact .inr ⟨v, hv, rfl⟩
    · exact .inl (.inr h)
  | _ => exact .inl h

/-- An array that is changed has its new elements. -/
theorem has_changeArray {id : Nat} {f : Array Value → Array Value}
    (h : Has { s with arrays := s.arrays.modify id f } i) :
    s.Has i ∨ ∃ xs, s.arrays[id]? = some xs ∧ ∃ v ∈ f xs, i = .element v := by
  cases i with
  | element v =>
    rcases h with ⟨xs, hxs, hv⟩ | h
    · rcases mem_of_mem_modify hxs with hxs | ⟨xs', hxs', rfl⟩
      · exact .inl (.inl ⟨xs, hxs, hv⟩)
      · exact .inr ⟨xs', hxs', v, hv, rfl⟩
    · exact .inl (.inr h)
  | _ => exact .inl h

/-- A new closure brings itself. -/
theorem has_addClosure {c : Closure} (h : (s.addClosure c).2.Has i) : s.Has i ∨ i = .closure c := by
  cases i with
  | closure c' =>
    rcases Array.mem_push.1 h with h | rfl
    · exact .inl h
    · exact .inr rfl
  | _ => exact .inl h

/-- A new class brings its fields, its methods and its superclass. -/
theorem has_addClass {k : ClassObject} (h : (s.addClass k).2.Has i) :
    s.Has i ∨ (∃ x v, k.fields.get? x = some v ∧ i = .element v) ∨
      (∃ x c, k.methods.get? x = some c ∧ i = .method c) ∨
      (k.metaclass.isSome ∧ i = .declared s.classes.size) ∨
      ∃ p, k.superclass = some p ∧ i = .derived s.classes.size p := by
  cases i with
  | element v =>
    rcases h with h | h | ⟨k', hk', x, hx⟩
    · exact .inl (.inl h)
    · exact .inl (.inr (.inl h))
    · rcases Array.mem_push.1 hk' with hk' | rfl
      · exact .inl (.inr (.inr ⟨k', hk', x, hx⟩))
      · exact .inr (.inl ⟨x, v, hx, rfl⟩)
  | method c =>
    obtain ⟨k', hk', x, hx⟩ := h
    rcases Array.mem_push.1 hk' with hk' | rfl
    · exact .inl ⟨k', hk', x, hx⟩
    · exact .inr (.inr (.inl ⟨x, c, hx, rfl⟩))
  | declared id =>
    have hmeta : ((s.classes.push k)[id]?.bind ClassObject.metaclass).isSome := h
    rw [Array.getElem?_push] at hmeta
    split at hmeta
    · next hid =>
      subst hid
      exact .inr (.inr (.inr (.inl ⟨hmeta, rfl⟩)))
    · exact .inl hmeta
  | derived id p =>
    have hsuper : (s.classes.push k)[id]?.bind ClassObject.superclass = some p := h
    rw [Array.getElem?_push] at hsuper
    split at hsuper
    · next hid =>
      subst hid
      exact .inr (.inr (.inr (.inr ⟨p, hsuper, rfl⟩)))
    · exact .inl hsuper
  | _ => exact .inl h

/-- A class that is declared leaves what was bound before. -/
theorem valueIn_addDeclared {outer f : FrameId} {name x : String} {found : Option ClassId}
    {methods classMethods : List Function} {v : Value} (h : s.frames.valueIn f x = some v) :
    (s.addDeclared outer name found methods classMethods).2.frames.valueIn f x = some v := by
  cases found with
  | none => exact h
  | some p =>
    show Frames.valueIn (s.frames.push _) f x = some v
    rw [Frames.valueIn_push_of_ne _ _ (Nat.ne_of_lt (Frames.lt_size_of_valueIn h)), h]

/-- The methods of a table are made in its frame. -/
theorem eq_of_methodTable {frame : FrameId} {methods : List Function} {x : String}
    {closure : Closure} (h : (methodTable frame methods).get? x = some closure) :
    ∃ f ∈ methods, closure = ⟨f, frame, false⟩ := by
  rw [get?_methodTable] at h
  obtain ⟨f, hf, rfl⟩ := Option.map_eq_some_iff.1 h
  exact ⟨f, List.mem_reverse.1 (List.mem_of_find?_eq_some hf), rfl⟩

/-- A class adds the name `super` for its superclass, and its methods. It extends the superclass,
and its metaclass the metaclass of that. -/
theorem has_addDeclared {outer : FrameId} {name : String} {found : Option ClassId}
    {methods classMethods : List Function}
    (h : (s.addDeclared outer name found methods classMethods).2.Has i) :
    s.Has i ∨ (∃ p, found = some p ∧ i = .binding s.frames.size "super" (.classValue p)) ∨
      (∃ f ∈ methods ++ classMethods,
        i = .method ⟨f, (s.addClassFrame outer found).1, false⟩) ∨
      i = .declared (s.addDeclared outer name found methods classMethods).1 ∨
      ∃ p, found = some p ∧ (i = .derived (s.classes.size + 1) p ∨
        ∃ j, s.metaclass? p = some j ∧ i = .derived s.classes.size j) := by
  have hsize : (s.addClassFrame outer found).2.classes.size = s.classes.size := by
    cases found <;> rfl
  rcases has_addClass h with h | ⟨x, v, hv, -⟩ | ⟨x, c, hc, rfl⟩ | ⟨-, rfl⟩ | ⟨p, hp, rfl⟩
  · rcases has_addClass h with h | ⟨x, v, hv, -⟩ | ⟨x, c, hc, rfl⟩ | ⟨hmeta, -⟩ | ⟨j, hj, rfl⟩
    · cases found with
      | none => exact .inl h
      | some p =>
        rcases has_addFrame h with h | ⟨x, v, hv, rfl⟩
        · exact .inl h
        · obtain ⟨rfl, rfl⟩ := Bindings.get?_singleton hv
          exact .inr (.inl ⟨p, rfl, rfl⟩)
    · cases hv
    · obtain ⟨f, hf, rfl⟩ := eq_of_methodTable hc
      exact .inr (.inr (.inl ⟨f, List.mem_append_right _ hf, rfl⟩))
    · cases hmeta
    · obtain ⟨p, hp, hj⟩ := Option.bind_eq_some_iff.1 hj
      exact .inr (.inr (.inr (.inr ⟨p, hp, .inr ⟨j, hj, congrArg (Item.derived · j) hsize⟩⟩)))
  · cases hv
  · obtain ⟨f, hf, rfl⟩ := eq_of_methodTable hc
    exact .inr (.inr (.inl ⟨f, List.mem_append_left _ hf, rfl⟩))
  · exact .inr (.inr (.inr (.inl rfl)))
  · refine .inr (.inr (.inr (.inr ⟨p, hp, .inl ?_⟩)))
    show Item.derived ((s.addClassFrame outer found).2.classes.push _).size p = _
    rw [Array.size_push, hsize]

/-- A new instance brings its fields. -/
theorem has_addObject {object : Object} (h : (s.addObject object).2.Has i) :
    s.Has i ∨ ∃ x v, object.fields.get? x = some v ∧ i = .element v := by
  cases i with
  | element v =>
    rcases h with h | ⟨object', hobject, x, hx⟩ | h
    · exact .inl (.inl h)
    · rcases Array.mem_push.1 hobject with hobject | rfl
      · exact .inl (.inr (.inl ⟨object', hobject, x, hx⟩))
      · exact .inr ⟨x, v, hx, rfl⟩
    · exact .inl (.inr (.inr h))
  | _ => exact .inl h

/-- A new alias brings itself. -/
theorem has_addReference {r : Reference} (h : (s.addReference r).2.Has i) :
    s.Has i ∨ i = .reference r := by
  cases i with
  | reference r' =>
    rcases Array.mem_push.1 h with h | rfl
    · exact .inl h
    · exact .inr rfl
  | _ => exact .inl h

/-- A field that is set has its new value. -/
theorem has_setObjectField {id : Nat} {name : String} {v : Value}
    (h : Has { s with objects := s.objects.modify id fun object ↦
      { object with fields := object.fields.insert name v } } i) : s.Has i ∨ i = .element v := by
  cases i with
  | element v' =>
    rcases h with h | ⟨object, hobject, x, hx⟩ | h
    · exact .inl (.inl h)
    · dsimp only at hobject
      rcases mem_of_mem_modify hobject with hobject | ⟨object', hobject', rfl⟩
      · exact .inl (.inr (.inl ⟨object, hobject, x, hx⟩))
      · rcases Bindings.get?_of_insert hx with hx | rfl
        · exact .inl (.inr (.inl ⟨object', Array.mem_of_getElem? hobject', x, hx⟩))
        · exact .inr rfl
    · exact .inl (.inr (.inr h))
  | _ => exact .inl h

/-- The same of the field of a class. -/
theorem has_setClassField {id : ClassId} {name : String} {v : Value}
    (h : Has { s with classes := s.classes.modify id fun c ↦
      { c with fields := c.fields.insert name v } } i) : s.Has i ∨ i = .element v := by
  cases i with
  | element v' =>
    rcases h with h | h | ⟨k, hk, x, hx⟩
    · exact .inl (.inl h)
    · exact .inl (.inr (.inl h))
    · dsimp only at hk
      rcases mem_of_mem_modify hk with hk | ⟨k', hk', rfl⟩
      · exact .inl (.inr (.inr ⟨k, hk, x, hx⟩))
      · rcases Bindings.get?_of_insert hx with hx | rfl
        · exact .inl (.inr (.inr ⟨k', Array.mem_of_getElem? hk', x, hx⟩))
        · exact .inr rfl
  | method c =>
    obtain ⟨k, hk, x, hx⟩ := h
    dsimp only at hk
    rcases mem_of_mem_modify hk with hk | ⟨k', hk', rfl⟩
    · exact .inl ⟨k, hk, x, hx⟩
    · exact .inl ⟨k', Array.mem_of_getElem? hk', x, hx⟩
  | declared k =>
    refine .inl ?_
    rw [Has, metaclass?_eq, shape?_setClassField] at h
    rwa [Has, metaclass?_eq]
  | derived k p =>
    refine .inl ?_
    rw [Has, superclass?_eq, shape?_setClassField] at h
    rwa [Has, superclass?_eq]
  | _ => exact .inl h

/-- Functions keep their numbers. -/
theorem KeepsFunctions.addClosure (s : Store) (c : Closure) :
    s.KeepsFunctions (s.addClosure c).2 := by
  intro id c' hc'
  have hne : id ≠ s.closures.size := Nat.ne_of_lt (Array.getElem?_eq_some_iff.1 hc').1
  simpa [Store.addClosure, Array.getElem?_push, hne] using hc'

end Store

namespace Memory

variable {o : Labels} {μ : Memory}

/-- The memory with another store. -/
abbrev withStore (μ : Memory) (s : Store) : Memory :=
  { μ with store := s }

/-! ### Memory grows -/

/-- If the frames are the same, a memory is later if nothing else has become less. -/
theorem Later.of_frames {s : Store} (hframes : s.frames = μ.frames)
    (harrays : μ.store.arrays.size ≤ s.arrays.size)
    (hobjects : μ.store.objects.size ≤ s.objects.size)
    (hclasses : ∀ id c, μ.store.shape? id = some c → s.shape? id = some c)
    (hreferences : μ.store.references.size ≤ s.references.size) : μ.Later (μ.withStore s) where
  frames := Nat.le_of_eq (congrArg Array.size hframes.symm)
  parent f _ := congrArg (Frames.parent? · f) hframes
  bound f x hx := (congrArg (fun fs ↦ (Frames.valueIn fs f x).isSome) hframes).trans hx
  keywords f x _ _ hv := (congrArg (fun fs ↦ Frames.valueIn fs f x) hframes).trans hv
  arrays := harrays
  objects := hobjects
  classes := hclasses
  references := hreferences
  nextIndex := Nat.le_refl _
  distances _ _ := rfl

/-- Classes are never changed in what is inherited, so a new one leaves the others. -/
theorem Later.addClass (μ : Memory) (k : ClassObject) :
    μ.Later (μ.withStore (μ.store.addClass k).2) := by
  refine .of_frames rfl (Nat.le_refl _) (Nat.le_refl _) (fun id c hc ↦ ?_) (Nat.le_refl _)
  exact Store.shape?_addClass k id c hc

/-- A variable that is bound is not `this` or `super`, whose frames stay as they are. -/
theorem Later.define {f : FrameId} (hf : f < μ.frames.size) {x : String}
    (hx : x ≠ "this" ∧ x ≠ "super") (v : Value) :
    μ.Later (μ.withStore { μ.store with frames := μ.frames.define f x v }) where
  frames := Nat.le_of_eq (Frames.size_define _ f x v).symm
  parent g _ := Frames.parent?_define _ f g x v
  bound g y hy := by
    show (Frames.valueIn (μ.frames.define f x v) g y).isSome
    rw [Frames.valueIn_define _ hf]
    split
    · rfl
    · exact hy
  keywords g y w hy hw := by
    show Frames.valueIn (μ.frames.define f x v) g y = some w
    have hne : ¬ (g = f ∧ y = x) := by
      rintro ⟨-, rfl⟩
      exact hy.elim hx.1 hx.2
    rw [Frames.valueIn_define _ hf, if_neg hne]
    exact hw
  arrays := Nat.le_refl _
  objects := Nat.le_refl _
  classes _ _ hc := hc
  references := Nat.le_refl _
  nextIndex := Nat.le_refl _
  distances _ _ := rfl

/-- A new frame leaves all frames as they were. -/
theorem Later.addFrame (μ : Memory) (parent : FrameId) (bindings : Bindings Value) :
    μ.Later (μ.withStore (μ.store.addFrame parent bindings).2) := by
  have hold : ∀ f x v, μ.frames.valueIn f x = some v →
      Frames.valueIn (μ.frames.push ⟨some parent, bindings⟩) f x = some v := by
    intro f x v hv
    rw [Frames.valueIn_push_of_ne _ _ (Nat.ne_of_lt (Frames.lt_size_of_valueIn hv)), hv]
  refine ⟨by simp [Memory.frames, Store.addFrame], fun f hf ↦ Frames.parent?_push_of_lt _ _ hf,
    fun f x hx ↦ ?_, fun f x v _ hv ↦ hold f x v hv, Nat.le_refl _, Nat.le_refl _,
    fun _ _ hc ↦ hc, Nat.le_refl _, Nat.le_refl _, fun _ _ ↦ rfl⟩
  obtain ⟨v, hv⟩ := Option.isSome_iff_exists.1 hx
  exact Option.isSome_iff_exists.2 ⟨v, hold f x v hv⟩

/-- A declared class leaves all frames and classes as they were. -/
theorem Later.addDeclared (μ : Memory) (outer : FrameId) (name : String) (found : Option ClassId)
    (methods classMethods : List Function) :
    μ.Later (μ.withStore (μ.store.addDeclared outer name found methods classMethods).2) := by
  have hframe : μ.Later (μ.withStore (μ.store.addClassFrame outer found).2) := by
    cases found with
    | none => exact .refl μ
    | some p => exact .addFrame μ outer _
  exact (hframe.trans (.addClass _ _)).trans (.addClass _ _)

/-! ### Changes that leave the frames as they are -/

/-- Memory stays in order if the frames stay as they are and what is added is in order. -/
theorem Sound.grows_of_frames (h : μ.Sound o) {s : Store} (hframes : s.frames = μ.frames)
    (hlater : μ.Later (μ.withStore s)) (hfunctions : μ.store.KeepsFunctions s)
    (hitems : ∀ i, s.Has i → μ.store.Has i ∨ i.Sound o μ) : μ.Grows o o (μ.withStore s) := by
  refine h.grows hlater hfunctions (.refl o _) (fun f hf hnew ↦ ?_) (fun i hi ↦ ?_) h.fresh
  · exact absurd (hframes ▸ hf) (Nat.not_lt.2 hnew)
  exact (hitems i hi).imp_right fun hnew ↦ hnew.later hlater (.refl o _)

/-- An array may hold all values that are not aliases. -/
theorem Sound.addArray (h : μ.Sound o) {elements : Array Value}
    (helements : ∀ v ∈ elements, v.Plain μ.store) :
    μ.Grows o o (μ.withStore (μ.store.addArray elements).2) := by
  refine h.grows_of_frames rfl (.of_frames rfl (by simp [Store.addArray]) (Nat.le_refl _)
    (fun _ _ hc ↦ hc) (Nat.le_refl _)) (fun _ _ hc ↦ hc) fun i hi ↦ ?_
  rcases Store.has_addArray hi with hi | ⟨v, hv, rfl⟩
  · exact .inl hi
  · exact .inr (helements v hv)

/-- Elements may be replaced by values that are not aliases. -/
theorem Sound.changeArray (h : μ.Sound o) {id : Nat} {f : Array Value → Array Value}
    (hf : ∀ xs, μ.store.arrays[id]? = some xs → ∀ v ∈ f xs, v ∈ xs ∨ v.Plain μ.store) :
    μ.Grows o o (μ.withStore { μ.store with arrays := μ.store.arrays.modify id f }) := by
  refine h.grows_of_frames rfl (.of_frames rfl (by simp) (Nat.le_refl _) (fun _ _ hc ↦ hc)
    (Nat.le_refl _)) (fun _ _ hc ↦ hc) fun i hi ↦ ?_
  rcases Store.has_changeArray hi with hi | ⟨xs, hxs, v, hv, rfl⟩
  · exact .inl hi
  · rcases hf xs hxs v hv with hv | hv
    · exact .inl (.inl ⟨xs, Array.mem_of_getElem? hxs, hv⟩)
    · exact .inr hv

/-- A closure may be made if it can be called where it stands. -/
theorem Sound.addClosure (h : μ.Sound o) {c : Closure} (hc : c.declaration.parameters.isSome)
    (hcallable : c.Callable o μ) : μ.Grows o o (μ.withStore (μ.store.addClosure c).2) := by
  refine h.grows_of_frames rfl (.of_frames rfl (Nat.le_refl _) (Nat.le_refl _) (fun _ _ hc ↦ hc)
    (Nat.le_refl _)) (.addClosure _ c) fun i hi ↦ ?_
  rcases Store.has_addClosure hi with hi | rfl
  · exact .inl hi
  · exact .inr ⟨hc, hcallable⟩

/-- An alias may be made if it can be followed where it stands. -/
theorem Sound.addReference (h : μ.Sound o) {r : Reference} (hr : r.Followable o μ) :
    μ.Grows o o (μ.withStore (μ.store.addReference r).2) := by
  refine h.grows_of_frames rfl (.of_frames rfl (Nat.le_refl _) (Nat.le_refl _) (fun _ _ hc ↦ hc)
    (by simp [Store.addReference])) (fun _ _ hc ↦ hc) fun i hi ↦ ?_
  rcases Store.has_addReference hi with hi | rfl
  · exact .inl hi
  · exact .inr hr

/-- Natives may be added at any time. -/
theorem Sound.addBuiltin (h : μ.Sound o) (b : Builtin) :
    μ.Grows o o (μ.withStore (μ.store.addBuiltin b).2) := by
  refine h.grows_of_frames rfl (.of_frames rfl (Nat.le_refl _) (Nat.le_refl _) (fun _ _ hc ↦ hc)
    (Nat.le_refl _)) (fun _ _ hc ↦ hc) fun i hi ↦ ?_
  cases i <;> exact .inl hi

/-- An instance may be made with fields that are not aliases. -/
theorem Sound.addObject (h : μ.Sound o) {object : Object}
    (hfields : ∀ x v, object.fields.get? x = some v → v.Plain μ.store) :
    μ.Grows o o (μ.withStore (μ.store.addObject object).2) := by
  refine h.grows_of_frames rfl (.of_frames rfl (Nat.le_refl _) (by simp [Store.addObject])
    (fun _ _ hc ↦ hc) (Nat.le_refl _)) (fun _ _ hc ↦ hc) fun i hi ↦ ?_
  rcases Store.has_addObject hi with hi | ⟨x, v, hv, rfl⟩
  · exact .inl hi
  · exact .inr (hfields x v hv)

/-- A class with nothing in it is added. -/
theorem Sound.addClass (h : μ.Sound o) (name : String) :
    μ.Grows o o (μ.withStore (μ.store.addClass ⟨name, none, [], none, []⟩).2) := by
  refine h.grows_of_frames rfl (.addClass μ _) (fun _ _ hc ↦ hc) fun i hi ↦ ?_
  rcases Store.has_addClass hi with hi | ⟨x, v, hv, rfl⟩ | ⟨x, c, hc, rfl⟩ | ⟨hmeta, rfl⟩ |
    ⟨p, hp, rfl⟩
  · exact .inl hi
  · cases hv
  · cases hc
  · cases hmeta
  · cases hp

/-- A field of an instance may be set to any value that is not an alias. -/
theorem Sound.setObjectField (h : μ.Sound o) {v : Value} (hv : v.Plain μ.store) (id : Nat)
    (name : String) :
    μ.Grows o o (μ.withStore { μ.store with objects := μ.store.objects.modify id fun object ↦
      { object with fields := object.fields.insert name v } }) := by
  refine h.grows_of_frames rfl (.of_frames rfl (Nat.le_refl _) (by simp) (fun _ _ hc ↦ hc)
    (Nat.le_refl _)) (fun _ _ hc ↦ hc) fun i hi ↦ ?_
  rcases Store.has_setObjectField hi with hi | rfl
  · exact .inl hi
  · exact .inr hv

/-- A field of a class may be set likewise. -/
theorem Sound.setClassField (h : μ.Sound o) {v : Value} (hv : v.Plain μ.store) (id : ClassId)
    (name : String) :
    μ.Grows o o (μ.withStore { μ.store with classes := μ.store.classes.modify id fun c ↦
      { c with fields := c.fields.insert name v } }) := by
  refine h.grows_of_frames rfl (.of_frames rfl (Nat.le_refl _) (Nat.le_refl _) (fun id' c hc ↦ ?_)
    (Nat.le_refl _)) (fun _ _ hc ↦ hc) fun i hi ↦ ?_
  · rw [← hc]
    exact Store.shape?_setClassField id name v id'
  rcases Store.has_setClassField hi with hi | rfl
  · exact .inl hi
  · exact .inr hv

/-! ### Changes of frames -/

/-- **Binding a name in a frame that may bind it.** -/
theorem Sound.define (h : μ.Sound o) {f : FrameId} {x : String} (hx : x ≠ "this" ∧ x ≠ "super")
    {v : Value} (hbinding : BindingSound o μ f x v) :
    μ.Grows o o (μ.withStore { μ.store with frames := μ.frames.define f x v }) := by
  have hlater := Later.define hbinding.size hx v
  refine h.grows hlater (fun _ _ hc ↦ hc) (.refl o _) (fun g hg hnew ↦ ?_) (fun i hi ↦ ?_) h.fresh
  · exact absurd (Frames.size_define _ f x v ▸ hg) (Nat.not_lt.2 hnew)
  rcases Store.has_define hbinding.size hi with hi | rfl
  · exact .inl hi
  · exact .inr (hbinding.later hlater (.refl o _))

/-- A frame that was made for a scope may bind plain values to the names that the scope declares. -/
theorem bindingSound_push {s : Scope} {x : String} {v : Value} {μ' : Memory} (hlater : μ.Later μ')
    (hsize : μ.frames.size < μ'.frames.size) (hv : v.Plain μ.store) (hx : x ∈ s.declares) :
    BindingSound (o.push μ.frames.size s) μ' μ.frames.size x v where
  size := hsize
  live := hv.1.later hlater
  declared s' hs' := by
    rw [Labels.push_self] at hs'
    cases hs'
    exact hx
  mayAlias href := absurd (hv.2.symm.trans href) (by decide)

/-- **Making a frame for a scope** inside of a frame, which binds the names that the scope is
entered with to plain values. -/
theorem Sound.addFrame (h : μ.Sound o) (s : Scope) (hs : ∀ declaration, s ≠ .superclass declaration)
    {parent : FrameId} (hparent : parent < μ.frames.size) {bindings : Bindings Value}
    (hbound : ∀ x ∈ s.bound, (bindings.get? x).isSome)
    (hbindings : ∀ x v, bindings.get? x = some v → v.Plain μ.store ∧ x ∈ s.declares) :
    μ.Grows o (o.push μ.frames.size s)
      (μ.withStore (μ.store.addFrame parent bindings).2) := by
  have hlater := Later.addFrame μ parent bindings
  refine h.grows hlater (fun _ _ hc ↦ hc) (o.agrees_push _ s) (fun f hf hnew ↦ ?_)
    (fun i hi ↦ ?_) h.fresh
  · have hf' : f = μ.frames.size := by
      simp only [Memory.frames, Store.addFrame, Array.size_push] at hf hnew ⊢
      omega
    subst hf'
    refine ⟨s, o.push_self _ s, ⟨parent, hparent, Frames.parent?_push_self _ _⟩, fun x hx ↦ ?_,
      fun declaration hd ↦ absurd hd (hs declaration)⟩
    show (Frames.valueIn (μ.frames.push ⟨some parent, bindings⟩) μ.frames.size x).isSome
    rw [Frames.valueIn_push_self]
    exact hbound x hx
  rcases Store.has_addFrame hi with hi | ⟨x, v, hv, rfl⟩
  · exact .inl hi
  · obtain ⟨hplain, hdeclares⟩ := hbindings x v hv
    exact .inr (bindingSound_push hlater (by simp [Memory.frames, Store.addFrame]) hplain hdeclares)

/-- Making the frame of a receiver. -/
theorem Sound.addReceiver (h : μ.Sound o) (declaration : Stmt) {receiver : Value}
    (hreceiver : receiver.Plain μ.store) {parent : FrameId} (hparent : parent < μ.frames.size) :
    μ.Grows o (o.push μ.frames.size (.receiver declaration))
      (μ.withStore (μ.store.addFrame parent [("this", receiver)]).2) := by
  refine h.addFrame (.receiver declaration) nofun hparent (fun x hx ↦ ?_) fun x v hv ↦ ?_
  · cases List.mem_singleton.1 hx
    rfl
  · obtain ⟨rfl, rfl⟩ := Bindings.get?_singleton hv
    exact ⟨hreceiver, List.mem_append_left _ (List.mem_singleton.2 rfl)⟩

/-- A new frame is the end of a chain that is one scope longer. -/
theorem chain_addFrame {s : Scope} {parent : FrameId} {bindings : Bindings Value}
    {scopes : List OpenScope} {names : List (List String)} {seen : List String}
    (hchain : Chain o μ.frames scopes names parent)
    (hseen : ∀ x ∈ seen, (bindings.get? x).isSome) :
    Chain (o.push μ.frames.size s) (μ.store.addFrame parent bindings).2.frames
      (⟨s, none⟩ :: scopes) (seen :: names) μ.frames.size := by
  refine ⟨by simp [Memory.frames, Store.addFrame], o.push_self _ s, fun x hx ↦ .inr ?_, parent, ?_,
    hchain.later (.addFrame μ parent bindings) (o.agrees_push _ s)⟩
  · show (Frames.valueIn (μ.frames.push ⟨some parent, bindings⟩) μ.frames.size x).isSome
    rw [Frames.valueIn_push_self]
    exact hseen x hx
  · exact Frames.parent?_push_self μ.frames ⟨some parent, bindings⟩

/-! ### Declared classes -/

/-- Labels the frame of a class, if it has one of its own. -/
def classLabels (o : Labels) (count : Nat) (declaration : Stmt) : Option ClassId → Labels
  | some _ => o.push count (.superclass declaration)
  | none => o

/-- Labels for a new class agree with those that there were, on all frames before. -/
theorem agrees_classLabels (o : Labels) (count : Nat) (declaration : Stmt)
    (found : Option ClassId) :
    o.Agrees (classLabels o count declaration found) count := by
  cases found with
  | none => exact .refl o count
  | some p => exact o.agrees_push count _

/-- **Making a class**, whose methods can be bound to receivers. -/
theorem Sound.addDeclared (h : μ.Sound o) {declaration : Stmt} {name : Token}
    {superclass : Option Token} {methods classMethods : List Function}
    (hdeclaration : declaration = .classDecl name superclass methods classMethods)
    {outer : FrameId} (houter : outer < μ.frames.size) {found : Option ClassId}
    (hsome : found.isSome = superclass.isSome)
    (hfound : ∀ p ∈ found, (Value.classValue p).Live μ.store) {μ' : Memory}
    (hμ' : μ' = μ.withStore (μ.store.addDeclared outer name.lexeme found methods classMethods).2)
    (hmethods : ∀ f ∈ methods ++ classMethods,
      Closure.Bindable (classLabels o μ.frames.size declaration found) μ'
        ⟨f, (μ.store.addClassFrame outer found).1, false⟩) :
    μ.Grows o (classLabels o μ.frames.size declaration found) μ' := by
  subst hμ'
  have hlater := Later.addDeclared μ outer name.lexeme found methods classMethods
  obtain ⟨line, hline⟩ := Store.line_addDeclared outer found methods classMethods name hsome hfound
  rw [← hdeclaration] at hline
  have hfunctions : μ.store.KeepsFunctions
      (μ.store.addDeclared outer name.lexeme found methods classMethods).2 := by
    cases found <;> exact fun _ _ hc ↦ hc
  refine h.grows hlater hfunctions (agrees_classLabels o _ declaration found) (fun f hf hnew ↦ ?_)
    (fun i hi ↦ ?_) h.fresh
  -- The only frame that is new is the one for `super`, and only a derived class has it.
  · cases found with
    | none => exact absurd hf (Nat.not_lt.2 hnew)
    | some p =>
      have hf' : f < (μ.frames.push ⟨some outer, [("super", .classValue p)]⟩).size := hf
      have hframe : f = μ.frames.size := by
        rw [Array.size_push] at hf'
        omega
      subst hframe
      have hsuper : Frames.valueIn (μ.frames.push ⟨some outer, [("super", .classValue p)]⟩)
          μ.frames.size "super" = some (.classValue p) := Frames.valueIn_push_self _ _ _
      refine ⟨.superclass declaration, o.push_self _ _,
        ⟨outer, houter, Frames.parent?_push_self _ _⟩, fun x hx ↦ ?_, ?_⟩
      · cases List.mem_singleton.1 hx
        exact Option.isSome_iff_exists.2 ⟨_, hsuper⟩
      · rintro _ ⟨⟩
        exact ⟨_, p, line, hline, Store.superclass?_addDeclared _ _ _ _ _, hsuper⟩
  -- New in the store are the binding of `super`, the methods, the class itself and what it extends.
  · rcases Store.has_addDeclared hi with hi | ⟨p, rfl, rfl⟩ | ⟨f, hf, rfl⟩ | rfl |
      ⟨p, rfl, rfl | ⟨j, hj, rfl⟩⟩
    · exact .inl hi
    · refine .inr (bindingSound_push hlater ?_ ⟨hfound p rfl, rfl⟩ (List.mem_singleton.2 rfl))
      show μ.frames.size < (μ.frames.push _).size
      rw [Array.size_push]
      exact Nat.lt_succ_self _
    · exact .inr (hmethods f hf)
    · exact .inr ⟨_, hline⟩
    · obtain ⟨line', hp⟩ := hfound p rfl
      exact .inr (Nat.lt_succ_of_lt hp.lt_size)
    · obtain ⟨line', hp⟩ := hfound p rfl
      exact .inr (hp.metaclass_lt_size hj)

end Memory

end AliasScript
