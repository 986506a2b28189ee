import BoardAtlas.Role.Map

/-!
# The direction of a pin

The direction is the only role that is inferred, ground the only one that is rewritten; all others stay as they are.
What is inferred depends on whether there is a direction already, so that it may not be the same a second time.

* **`RoleMap.get?_inferIo`**: every look-up after the direction is set;
* `RoleMap.has_io_inferIo`, `RoleMap.has_inferIo`: there is always a direction then, and no other role is added;
* `RoleMap.impliedIo?_inferIo`, `RoleMap.inferIo_eq_self_iff`: what is inferred from a pin with a direction, and the
  pins that stay as they are;
* **`RoleMap.inferIo_inferIo`**: what one inference does and when a second one still changes something.
-/

namespace BoardAtlas

namespace RoleMap

/-- **A look-up after the direction is set.** -/
theorem get?_inferIo (m : RoleMap) (r : RoleType) :
    m.inferIo.get? r =
      if r = .gnd then (m.get? .gnd).map fun _ => .text "GND"
      else if r = .io then (m.impliedIo?.map fun t => .text t.name).or (m.get? .io)
      else m.get? r := by
  have hground (n : RoleMap) : (if n.has .gnd then n.insert .gnd (.text "GND") else n).get? r =
      if r = .gnd then (n.get? .gnd).map fun _ => .text "GND" else n.get? r := by
    by_cases hr : r = .gnd
    · subst hr
      cases hn : n.get? .gnd <;> simp [has, hn]
    · rw [if_neg hr]
      split
      · rw [get?_insert, if_neg hr]
      · rfl
  unfold inferIo
  rw [hground]
  cases m.impliedIo? with
  | none =>
    simp only [Option.map_none, Option.none_or]
    split
    · rfl
    · split
      · next hr => rw [hr]
      · rfl
  | some t => simp

theorem isSome_impliedIo? {m : RoleMap} (h : m.has .io = false) : m.impliedIo?.isSome = true := by
  unfold impliedIo?
  rw [h]
  repeat' split
  all_goals simp_all

theorem has_io_inferIo (m : RoleMap) : m.inferIo.has .io = true := by
  rw [has, get?_inferIo, if_neg (by decide), if_pos rfl, Option.isSome_or]
  cases h : m.has .io with
  | false => simp [isSome_impliedIo? h]
  | true => exact Bool.or_eq_true_iff.2 (Or.inr h)

/-! ## A second inference -/

theorem ext_get? {m n : RoleMap} (h : ∀ r, m.get? r = n.get? r) : m = n :=
  congrArg RoleMap.mk (funext h)

theorem has_inferIo (m : RoleMap) {r : RoleType} (hr : r ≠ .io) : m.inferIo.has r = m.has r := by
  rw [has, get?_inferIo, if_neg hr]
  split
  · next hgnd => rw [hgnd, has, Option.isSome_map]
  · rfl

theorem impliedIo?_of_has_io {m : RoleMap} (h : m.has .io = true) : m.impliedIo? =
    if m.has .nc then some .nc
    else if m.has .pwm then some .pwm
    else if m.has .pwr || m.has .gnd then some .pwr
    else none := by
  simp [impliedIo?, h]

/-- A second inference no longer depends on whether there is a GPIO. -/
theorem impliedIo?_inferIo (m : RoleMap) : m.inferIo.impliedIo? =
    if m.has .nc then some .nc
    else if m.has .pwm then some .pwm
    else if m.has .pwr || m.has .gnd then some .pwr
    else none := by
  rw [impliedIo?_of_has_io (has_io_inferIo m), has_inferIo m (by decide), has_inferIo m (by decide),
    has_inferIo m (by decide), has_inferIo m (by decide)]

/-- **What is not changed by an inference**: ground is shown as such, and the direction is the one implied. -/
theorem inferIo_eq_self_iff {m : RoleMap} : m.inferIo = m ↔
    (∀ v, m.get? .gnd = some v → v = .text "GND") ∧
      ∀ t, m.impliedIo? = some t → m.get? .io = some (.text t.name) := by
  constructor
  · intro h
    refine ⟨fun v hv => ?_, fun t ht => ?_⟩
    · have hgnd := get?_inferIo m .gnd
      rw [h, if_pos rfl, hv] at hgnd
      exact Option.some.inj hgnd
    · have hio := get?_inferIo m .io
      rwa [h, if_neg (by decide), if_pos rfl, ht] at hio
  · rintro ⟨hgnd, hio⟩
    refine ext_get? fun r => ?_
    rw [get?_inferIo]
    split
    · next hr =>
      subst hr
      cases hv : m.get? .gnd with
      | none => rfl
      | some v => rw [hgnd v hv, Option.map_some]
    · split
      · next hr =>
        subst hr
        cases ht : m.impliedIo? with
        | none => rfl
        | some t => rw [hio t ht]; rfl
      · rfl

/-- **When a second inference changes something.** -/
theorem inferIo_inferIo_eq_iff (m : RoleMap) : m.inferIo.inferIo = m.inferIo ↔
    ¬ (m.has .gpio = true ∧ (m.has .pwr = true ∨ m.has .gnd = true) ∧
      m.has .nc = false ∧ m.has .pwm = false ∧ m.has .io = false) := by
  have hgnd (v : RoleValue) (hv : m.inferIo.get? .gnd = some v) : v = .text "GND" := by
    rw [get?_inferIo, if_pos rfl] at hv
    obtain ⟨-, -, rfl⟩ := Option.map_eq_some_iff.1 hv
    rfl
  have hio : m.inferIo.get? .io = (m.impliedIo?.map fun t => .text t.name).or (m.get? .io) := by
    rw [get?_inferIo, if_neg (by decide), if_pos rfl]
  rw [inferIo_eq_self_iff, and_iff_right hgnd, impliedIo?_inferIo, hio, impliedIo?]
  by_cases hnc : m.has .nc = true
  · simp [hnc]
  by_cases hpwm : m.has .pwm = true
  · simp [hnc, hpwm]
  by_cases hpower : m.has .pwr = true ∨ m.has .gnd = true
  · cases hgpio : m.has .gpio <;> cases hdir : m.has .io <;> simp [*, IoType.name]
  · simp [hnc, hpwm, hpower]

/-- **Setting the direction**, once and again. All other roles stay as they are, but for ground. A second time changes
something exactly for a GPIO with PWR or GND, without NC and PWM, that had no direction; a third time changes nothing.
-/
theorem inferIo_inferIo (m : RoleMap) :
    m.inferIo.has .io = true ∧
    (∀ r, r ≠ .io → r ≠ .gnd → m.inferIo.get? r = m.get? r) ∧
    (∀ r, r ≠ .io → m.inferIo.has r = m.has r) ∧
    (∀ v, m.get? .io = some v → m.inferIo.get? .io = some
      (if m.has .nc then .text "NC" else if m.has .pwm then .text "PWM"
        else if m.has .pwr || m.has .gnd then .text "PWR" else v)) ∧
    (m.inferIo.inferIo ≠ m.inferIo ↔
      m.has .gpio = true ∧ (m.has .pwr = true ∨ m.has .gnd = true) ∧
        m.has .nc = false ∧ m.has .pwm = false ∧ m.has .io = false) ∧
    m.inferIo.inferIo.inferIo = m.inferIo.inferIo := by
  refine ⟨has_io_inferIo m, fun r hio hgnd => ?_, fun r hr => has_inferIo m hr, fun v hv => ?_, ?_, ?_⟩
  · rw [get?_inferIo, if_neg hgnd, if_neg hio]
  · have hio : m.has .io = true := by rw [has, hv, Option.isSome_some]
    rw [get?_inferIo, if_neg (by decide), if_pos rfl, impliedIo?_of_has_io hio, hv]
    repeat' split
    all_goals rfl
  · rw [Ne, inferIo_inferIo_eq_iff, Decidable.not_not]
  · rw [inferIo_inferIo_eq_iff, has_io_inferIo]
    simp

/-- A supplied GPIO is an input and output at first and power the second time; a supplied input is power at once. -/
theorem inferIo_inferIo_suppliedPin :
    let m := (empty.insert .gpio (.text "PA0")).insert .pwr (.text "3V3")
    m.inferIo.get? .io = some (.text "IO") ∧ m.inferIo.inferIo ≠ m.inferIo ∧
      (m.insert .io (.text "I")).inferIo.get? .io = some (.text "PWR") := by
  obtain ⟨-, -, -, -, hsecond, -⟩ := inferIo_inferIo ((empty.insert .gpio (.text "PA0")).insert .pwr (.text "3V3"))
  obtain ⟨-, -, -, hkept, -, -⟩ :=
    inferIo_inferIo (((empty.insert .gpio (.text "PA0")).insert .pwr (.text "3V3")).insert .io (.text "I"))
  exact ⟨rfl, hsecond.2 ⟨rfl, .inl rfl, rfl, rfl, rfl⟩, hkept _ rfl⟩

end RoleMap

end BoardAtlas
