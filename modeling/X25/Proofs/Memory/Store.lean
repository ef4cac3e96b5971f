import X25.Memory.AddressSpace

/-! # Refused stores

A device may refuse a word. If the devices then keep the words they have and show nothing, so does
the address space.
-/

namespace X25

open MemoryDevice

section Devices

variable {δ : Type} [MemoryDevice δ]

/-- When the device refuses a word, all words stay as they are. -/
def KeepsWords (d : δ) : Prop :=
  ∀ a v f d', store a v d = .error f d' → ∀ b, get? d' b = get? d b

/-- The device shows nothing of a word that it refuses. -/
def RefusesSilently (d : δ) : Prop :=
  ∀ a v f d', store a v d = .error f d' → f.shown = []

namespace AddressSpace

/-- The words and what consoles have shown are the same. -/
structure Agrees (s s' : AddressSpace δ) : Prop where
  words : ∀ a, s'.get? a = s.get? a
  output : s'.output = s.output

theorem Agrees.refl (s : AddressSpace δ) : s.Agrees s :=
  ⟨fun _ => rfl, rfl⟩

variable {a v : Word} {f : AddressFault} {refusal : Refusal} {rs rs' : List (Region δ)}

theorem find?_bind_get?_cons (r : Region δ) (rs : List (Region δ)) (b : Word) :
    ((r :: rs).find? (·.contains b)).bind (·.get? b) =
      if r.contains b then r.get? b else (rs.find? (·.contains b)).bind (·.get? b) := by
  rw [List.find?_cons]
  cases r.contains b <;> rfl

/-- How a store is refused: no region has the address, or the device of the first one that has it
refuses the word. -/
inductive Refuses (a v : Word) : List (Region δ) → Refusal → List (Region δ) → Prop
  | unmapped : Refuses a v [] ⟨⟨a⟩, []⟩ []
  | device {r : Region δ} {rs : List (Region δ)} {g : Refusal} {d : δ}
      (hd : MemoryDevice.store (r.offset a) v r.device = .error g d) :
      Refuses a v (r :: rs) ⟨⟨a⟩, g.shown⟩ ({ r with device := d } :: rs)
  | later {r : Region δ} {rs rs' : List (Region δ)} {g : Refusal} (h : Refuses a v rs g rs') :
      Refuses a v (r :: rs) g (r :: rs')

theorem refuses_of_storeIn_error (h : storeIn a v rs = .error refusal rs') :
    Refuses a v rs refusal rs' := by
  induction rs generalizing rs' with
  | nil =>
    cases h
    exact .unmapped
  | cons r rs ih =>
    rw [storeIn] at h
    split at h
    · cases hd : MemoryDevice.store (r.offset a) v r.device with
      | ok text d => rw [hd] at h; cases h
      | error g d => rw [hd] at h; cases h; exact .device hd
    · cases hs : storeIn a v rs with
      | ok text rs'' => rw [hs] at h; cases h
      | error g rs'' => rw [hs] at h; cases h; exact .later (ih hs)

theorem Refuses.find?_bind_get? (h : Refuses a v rs refusal rs')
    (hk : ∀ r ∈ rs, KeepsWords r.device) (b : Word) :
    (rs'.find? (·.contains b)).bind (·.get? b) = (rs.find? (·.contains b)).bind (·.get? b) := by
  induction h with
  | unmapped => rfl
  | @device r rs g d hd =>
    -- the region of the device that refused serves the same addresses as before
    have hr : ({ r with device := d } : Region δ).get? b = r.get? b :=
      hk r List.mem_cons_self _ _ _ _ hd (r.offset b)
    rw [find?_bind_get?_cons, find?_bind_get?_cons, hr]
    rfl
  | @later r rs rs' g h ih =>
    rw [find?_bind_get?_cons, find?_bind_get?_cons,
      ih fun r' hr' => hk r' (List.mem_cons_of_mem r hr')]

theorem Refuses.shown_eq_nil (h : Refuses a v rs refusal rs')
    (hq : ∀ r ∈ rs, RefusesSilently r.device) : refusal.shown = [] := by
  induction h with
  | unmapped => rfl
  | @device r rs g d hd => exact hq r List.mem_cons_self _ _ g d hd
  | @later r rs rs' g h ih => exact ih fun r' hr' => hq r' (List.mem_cons_of_mem r hr')

theorem agrees_of_store_error {s s' : AddressSpace δ} (hk : ∀ r ∈ s.regions, KeepsWords r.device)
    (hq : ∀ r ∈ s.regions, RefusesSilently r.device) (h : store a v s = .error f s') :
    s.Agrees s' := by
  rw [store] at h
  cases hs : storeIn a v s.regions with
  | ok text rs =>
    rw [hs] at h
    cases h
  | error g rs =>
    rw [hs] at h
    cases h
    have hr := refuses_of_storeIn_error hs
    exact ⟨hr.find?_bind_get? hk, by rw [hr.shown_eq_nil hq]; rfl⟩

end AddressSpace

end Devices

theorem Device.keepsWords (d : Device) : KeepsWords d := by
  intro a v f d' h b
  rw [Device.store_eq] at h
  split at h
  · cases h
  · cases h
    rfl

theorem Device.refusesSilently (d : Device) : RefusesSilently d := by
  intro a v f d' h
  rw [Device.store_eq] at h
  split at h <;> cases h
  rfl

end X25
