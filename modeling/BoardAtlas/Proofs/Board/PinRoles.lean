import BoardAtlas.Board.Pinout
import BoardAtlas.Proofs.Manifest.Distinct
import BoardAtlas.Proofs.Result
import BoardAtlas.Proofs.Role.Direction

/-!
# The roles of pins

What a pin has under a key is decided by look-ups: the chip pin that it names comes first, the pin itself second, and
aliases that are given together stand for those of each kind. A pinout can be read exactly if all that is found this
way are known roles with plain values.

* `RoleSet`, `chipRole`, `overlaid`, `toldApart`: look-ups;
* `Readable`, `IsTable`: what can be read;
* `get?_splitAliases`, `roleMapOf_eq_ok_iff`, `get?_overlay`: the three steps to the roles of a pin;
* `pinRoles_eq_ok_iff`: one pin;
* **`ofValues_roles`**: all pins.
-/

namespace BoardAtlas

/-! ## Names of roles -/

theorem RoleType.ofName?_eq_some_iff {s : String} {r : RoleType} : ofName? s = some r ↔ r.name = s := by
  constructor
  · intro h
    simpa using List.find?_some h
  · rintro rfl
    exact ofName?_name r

theorem RoleType.name_inj {r q : RoleType} : r.name = q.name ↔ r = q := by
  rw [← ofName?_eq_some_iff, ofName?_name, Option.some.injEq, eq_comm]

namespace Pinout

/-! ## Look-ups -/

/-- The roles of a pin by their keys. -/
abbrev RoleSet : Type := String → Option Value

/-- The members of a value that is there and an object. -/
def membersOf (v? : Option Value) : Dict Value := (v?.bind Value.members?).getD []

/-- What the chip pin has that a pin names in its own roles. -/
def chipRole (ic : Option Value) (own : RoleSet) : RoleSet := fun key =>
  (own RoleType.ic.name).bind fun v => ((membersOf ic).get? v.varText).bind fun chip => chip.get? key

/-- The roles of the chip pin that a pin names, and below them its own. -/
def overlaid (ic : Option Value) (own : RoleSet) : RoleSet := fun key => (chipRole ic own key).or (own key)

/-- The aliases of a kind among those that are given together. -/
def givenAliases (roles : RoleSet) (kind : AliasKind) : List String :=
  aliasesOf kind (((roles aliasKey).map aliasTexts).getD [])

/-- Roles with aliases under the keys of their kinds, and none given together. -/
def toldApart (roles : RoleSet) : RoleSet := fun key =>
  if key = aliasKey then none
  else
    match AliasKind.all.find? fun kind => kind.roleType.name = key with
    | some kind => ((givenAliases roles kind).head?.map Value.str).or (roles key)
    | none => roles key

/-- Roles that can be read: at most one alias of each kind is given, and then all keys are roles and no value is an
object. -/
structure Readable (roles : RoleSet) : Prop where
  aliases : ∀ kind, (givenAliases roles kind).length ≤ 1
  known : ∀ key v, toldApart roles key = some v → ∃ r : RoleType, r.name = key
  plain : ∀ key v, toldApart roles key = some v → v.kind ≠ .object

/-- A table of pins: it is missing, or it is an object of objects. -/
def IsTable (v? : Option Value) : Prop :=
  ∀ v ∈ v?, ∃ pins, v = .obj pins ∧ ∀ e ∈ pins, ∃ roles, e.2 = .obj roles

/-- The value that a role gets from a manifest, where objects are not allowed. -/
def valueOf : Value → RoleValue
  | .null | .obj _ => .absent
  | .num x => .number x
  | .str s => .text s
  | .bool b => .text (Value.bool b).varText
  | .list items => .list (items.map Value.varText)

/-! ## Tables -/

theorem rawRoles_eq_ok_iff {board field pin : String} {v : Value} {roles : RawRoles} :
    rawRoles board field pin v = .ok roles ↔ v = .obj roles := by
  unfold rawRoles
  split
  · simp
  · next hno =>
    constructor
    · rintro ⟨⟩
    · rintro rfl
      exact absurd rfl (hno roles)

theorem mapM_entries_eq_ok_iff {ε β γ : Type} {f : String → β → Except ε γ} {d : Dict β} {out : Dict γ} :
    (d.mapM fun (key, x) => (f key x).map fun y => (key, y)) = .ok out ↔
      List.Forall₂ (fun e o => e.1 = o.1 ∧ f e.1 e.2 = .ok o.2) d out := by
  have hstep (e : String × β) (o : String × γ) :
      ((f e.1 e.2).map fun y => (e.1, y)) = .ok o ↔ e.1 = o.1 ∧ f e.1 e.2 = .ok o.2 := by
    rw [Except.map_eq_ok]
    constructor
    · rintro ⟨y, hy, rfl⟩
      exact ⟨rfl, hy⟩
    · rintro ⟨hkey, hy⟩
      exact ⟨o.2, hy, Prod.ext hkey rfl⟩
  rw [Except.mapM_eq_ok_iff]
  simp only [hstep]

theorem rawTable_eq_ok_iff {board field : String} {v? : Option Value} {rows : Dict RawRoles} :
    rawTable board field v? = .ok rows ↔
      (∀ v ∈ v?, ∃ pins, v = .obj pins) ∧ membersOf v? = rows.mapValues Value.obj := by
  unfold rawTable
  split
  · rw [Except.ok.injEq]
    constructor
    · rintro rfl
      exact ⟨fun v hv => (nomatch hv), rfl⟩
    · exact fun h => (List.map_eq_nil_iff.1 h.2.symm).symm
  · next pins =>
    rw [mapM_entries_eq_ok_iff]
    have hrow (e : String × Value) (row : String × RawRoles) :
        (e.1 = row.1 ∧ rawRoles board field e.1 e.2 = .ok row.2) ↔ e = (row.1, Value.obj row.2) := by
      rw [rawRoles_eq_ok_iff, Prod.ext_iff]
    simp only [hrow]
    rw [← List.forall₂_map_right_iff (f := fun row : String × RawRoles => (row.1, Value.obj row.2)),
      List.forall₂_eq_eq_eq]
    exact ⟨fun h => ⟨fun v hv => ⟨pins, (Option.some.inj hv).symm⟩, h⟩, And.right⟩
  · next v hv =>
    refine iff_of_false (fun h => nomatch h) fun h => ?_
    obtain ⟨pins, rfl⟩ := h.1 v rfl
    exact hv pins rfl

theorem exists_rawTable_eq_ok_iff {board field : String} {v? : Option Value} :
    (∃ rows, rawTable board field v? = .ok rows) ↔ IsTable v? := by
  unfold rawTable IsTable
  split
  · simp
  · next pins =>
    rw [Except.exists_mapM_eq_ok_iff]
    simp only [Except.map_eq_ok, rawRoles_eq_ok_iff]
    constructor
    · rintro h v ⟨⟩
      refine ⟨pins, rfl, fun e he => ?_⟩
      obtain ⟨_, roles, hroles, -⟩ := h e he
      exact ⟨roles, hroles⟩
    · intro h e he
      obtain ⟨_, ⟨⟩, hpins⟩ := h _ rfl
      obtain ⟨roles, hroles⟩ := hpins e he
      exact ⟨_, roles, hroles, rfl⟩
  · next v hv =>
    refine iff_of_false (fun h => nomatch h) fun h => ?_
    obtain ⟨pins, rfl, -⟩ := h v rfl
    exact hv pins rfl

/-! ## Aliases -/

section Aliases

variable {board pin : String} {aliases : List String} {roles out : RawRoles} {kind : AliasKind}

theorem addAlias_eq_ok_iff : addAlias board pin aliases roles kind = .ok out ↔
    (aliasesOf kind aliases).length ≤ 1 ∧
      out = ((aliasesOf kind aliases).head?.elim roles fun a =>
        roles.insert kind.roleType.name (.str a)) := by
  unfold addAlias
  split
  · next h => simp [h, eq_comm]
  · next a h => simp [h, eq_comm]
  · next several hnone hone =>
    refine iff_of_false (fun h => nomatch h) fun h => ?_
    match hseveral : aliasesOf kind aliases with
    | [] => exact hnone hseveral
    | [a] => exact hone a hseveral
    | _ :: _ :: _ =>
      rw [hseveral] at h
      exact absurd h.1 (by simp)

theorem distinct_addAlias (hd : roles.Distinct) (h : addAlias board pin aliases roles kind = .ok out) :
    out.Distinct := by
  rw [(addAlias_eq_ok_iff.1 h).2]
  cases (aliasesOf kind aliases).head? with
  | none => exact hd
  | some a => exact Dict.distinct_insert hd _ _

theorem get?_addAlias (h : addAlias board pin aliases roles kind = .ok out) (key : String) :
    out.get? key =
      if kind.roleType.name = key then ((aliasesOf kind aliases).head?.map Value.str).or (roles.get? key)
      else roles.get? key := by
  rw [(addAlias_eq_ok_iff.1 h).2]
  cases (aliasesOf kind aliases).head? with
  | none => simp
  | some a =>
    rw [Option.elim_some, Dict.get?_insert]
    split <;> rfl

theorem exists_splitAliases_eq_ok_iff :
    (∃ out, splitAliases board pin roles = .ok out) ↔
      ∀ kind, (givenAliases roles.get? kind).length ≤ 1 := by
  unfold splitAliases givenAliases
  split
  · next h => simp [h, aliasesOf]
  · next v h =>
    simp only [AliasKind.all, List.foldlM_cons, List.foldlM_nil, Except.bind_eq_ok, addAlias_eq_ok_iff, h,
      Option.map_some, Option.getD_some]
    constructor
    · rintro ⟨_, _, ⟨hdigital, -⟩, _, ⟨hanalog, -⟩, -⟩ kind
      cases kind with
      | digital => exact hdigital
      | analog => exact hanalog
    · exact fun hone => ⟨_, _, ⟨hone .digital, rfl⟩, _, ⟨hone .analog, rfl⟩, rfl⟩

/-- **Telling aliases apart** changes look-ups as it should. -/
theorem get?_splitAliases (hd : roles.Distinct) (h : splitAliases board pin roles = .ok out) :
    out.Distinct ∧ out.get? = toldApart roles.get? := by
  unfold splitAliases at h
  split at h
  · next hnone =>
    cases h
    refine ⟨hd, funext fun key => ?_⟩
    unfold toldApart givenAliases
    rw [hnone]
    split
    · next hkey => rw [hkey, hnone]
    · split <;> rfl
  · next v hv =>
    simp only [AliasKind.all, List.foldlM_cons, List.foldlM_nil, Except.bind_eq_ok] at h
    obtain ⟨mid, hmid, last, hlast, h⟩ := h
    cases h
    have herased : Dict.Distinct (roles.erase aliasKey) := Dict.distinct_erase hd aliasKey
    refine ⟨distinct_addAlias (distinct_addAlias herased hmid) hlast, funext fun key => ?_⟩
    rw [get?_addAlias hlast, get?_addAlias hmid, Dict.get?_erase _ _ _ hd]
    unfold toldApart givenAliases
    rw [hv]
    by_cases hgiven : key = aliasKey
    · subst hgiven
      rfl
    rw [if_neg hgiven, if_neg (Ne.symm hgiven)]
    by_cases hanalog : AliasKind.analog.roleType.name = key
    · subst hanalog
      rfl
    by_cases hdigital : AliasKind.digital.roleType.name = key
    · subst hdigital
      rfl
    simp [AliasKind.all, hanalog, hdigital]

end Aliases

/-! ## Roles of one pin -/

section Roles

variable {board pin : String} {roles : RawRoles}

theorem roleValueOf_eq_ok_iff {r : RoleType} {v : Value} {x : RoleValue} :
    roleValueOf board pin r v = .ok x ↔ v.kind ≠ .object ∧ x = valueOf v := by
  cases v <;> simp [roleValueOf, Value.kind, valueOf, eq_comm]

/-- Gives a pin the role of a key. -/
def addRole (board pin : String) (m : RoleMap) (e : String × Value) : Except BoardError RoleMap :=
  match RoleType.ofName? e.1 with
  | some r => (roleValueOf board pin r e.2).map fun x => m.insert r x
  | none => .error (.unknownRole board pin e.1)

theorem roleMapOf_eq : roleMapOf board pin roles = roles.foldlM (addRole board pin) RoleMap.empty := rfl

theorem addRole_eq_ok_iff {m out : RoleMap} {e : String × Value} :
    addRole board pin m e = .ok out ↔
      ∃ r : RoleType, r.name = e.1 ∧ e.2.kind ≠ .object ∧ out = m.insert r (valueOf e.2) := by
  unfold addRole
  split
  · next r hr =>
    rw [RoleType.ofName?_eq_some_iff] at hr
    simp only [Except.map_eq_ok, roleValueOf_eq_ok_iff]
    constructor
    · rintro ⟨x, ⟨hkind, rfl⟩, rfl⟩
      exact ⟨r, hr, hkind, rfl⟩
    · rintro ⟨q, hq, hkind, rfl⟩
      rw [RoleType.name_inj.1 (hq.trans hr.symm)]
      exact ⟨_, ⟨hkind, rfl⟩, rfl⟩
  · next hnone =>
    refine iff_of_false (fun h => nomatch h) fun ⟨r, hr, _⟩ => ?_
    rw [RoleType.ofName?_eq_some_iff.2 hr] at hnone
    cases hnone

theorem foldlM_addRole (hd : roles.Distinct) {m out : RoleMap} :
    roles.foldlM (addRole board pin) m = .ok out ↔
      (∀ e ∈ roles, (∃ r : RoleType, r.name = e.1) ∧ e.2.kind ≠ .object) ∧
        out = ⟨fun r => ((roles.get? r.name).map valueOf).or (m.get? r)⟩ := by
  induction roles generalizing m with
  | nil =>
    rw [List.foldlM_nil]
    change Except.ok m = _ ↔ _
    simp [eq_comm]
  | cons e rest ih =>
    obtain ⟨key, v⟩ := e
    obtain ⟨hkey, hrest⟩ : key ∉ Dict.keys rest ∧ Dict.Distinct rest := List.nodup_cons.1 hd
    have hview (r : RoleType) (hr : r.name = key) :
        (⟨fun q => ((Dict.get? rest q.name).map valueOf).or ((m.insert r (valueOf v)).get? q)⟩ : RoleMap) =
          ⟨fun q => ((Dict.get? ((key, v) :: rest) q.name).map valueOf).or (m.get? q)⟩ := by
      refine congrArg RoleMap.mk (funext fun q => ?_)
      rw [Dict.get?_cons, RoleMap.get?_insert]
      by_cases hq : q = r
      · subst hq
        rw [if_pos rfl, if_pos hr.symm, hr, Dict.get?_eq_none hkey]
        rfl
      · have hname : key ≠ q.name := fun h => hq (RoleType.name_inj.1 (h.symm.trans hr.symm))
        rw [if_neg hq, if_neg hname]
    simp only [List.foldlM_cons, Except.bind_eq_ok, addRole_eq_ok_iff, List.forall_mem_cons]
    constructor
    · rintro ⟨_, ⟨r, hr, hkind, rfl⟩, h⟩
      obtain ⟨hall, rfl⟩ := (ih hrest).1 h
      exact ⟨⟨⟨⟨r, hr⟩, hkind⟩, hall⟩, hview r hr⟩
    · rintro ⟨⟨⟨⟨r, hr⟩, hkind⟩, hall⟩, rfl⟩
      exact ⟨_, ⟨r, hr, hkind, rfl⟩, (ih hrest).2 ⟨hall, (hview r hr).symm⟩⟩

/-- **The roles of a pin** are what its keys and values say, if all of them can be read. -/
theorem roleMapOf_eq_ok_iff (hd : roles.Distinct) {out : RoleMap} :
    roleMapOf board pin roles = .ok out ↔
      (∀ key v, roles.get? key = some v → (∃ r : RoleType, r.name = key) ∧ v.kind ≠ .object) ∧
        out = ⟨fun r => (roles.get? r.name).map valueOf⟩ := by
  have hentries : (∀ e ∈ roles, (∃ r : RoleType, r.name = e.1) ∧ e.2.kind ≠ .object) ↔
      ∀ key v, roles.get? key = some v → (∃ r : RoleType, r.name = key) ∧ v.kind ≠ .object :=
    ⟨fun h key v hv => h _ (Dict.mem_of_get? hv), fun h e he => h _ _ (Dict.get?_of_mem hd he)⟩
  rw [roleMapOf_eq, foldlM_addRole hd, hentries]
  simp [RoleMap.empty]

theorem splitAliases_roleMapOf_eq_ok_iff (hd : roles.Distinct) {m : RoleMap} :
    (splitAliases board pin roles >>= roleMapOf board pin) = .ok m ↔
      Readable roles.get? ∧ m = ⟨fun r => (toldApart roles.get? r.name).map valueOf⟩ := by
  rw [Except.bind_eq_ok]
  constructor
  · rintro ⟨out, hout, hm⟩
    obtain ⟨hdistinct, hget⟩ := get?_splitAliases hd hout
    rw [roleMapOf_eq_ok_iff hdistinct, hget] at hm
    obtain ⟨hall, rfl⟩ := hm
    exact ⟨⟨exists_splitAliases_eq_ok_iff.1 ⟨out, hout⟩, fun key v hv => (hall key v hv).1,
      fun key v hv => (hall key v hv).2⟩, rfl⟩
  · rintro ⟨⟨haliases, hknown, hplain⟩, rfl⟩
    obtain ⟨out, hout⟩ := exists_splitAliases_eq_ok_iff.2 haliases
    obtain ⟨hdistinct, hget⟩ := get?_splitAliases hd hout
    refine ⟨out, hout, (roleMapOf_eq_ok_iff hdistinct).2 ?_⟩
    rw [hget]
    exact ⟨fun key v hv => ⟨hknown key v hv, hplain key v hv⟩, rfl⟩

end Roles

/-! ## All pins -/

theorem distinct_of_mem_rows {v? : Option Value} {rows : Dict RawRoles} (hd : ∀ v ∈ v?, v.Distinct)
    (hrows : membersOf v? = rows.mapValues Value.obj) {e : String × RawRoles} (he : e ∈ rows) :
    Dict.Distinct e.2 := by
  have hmem : (e.1, Value.obj e.2) ∈ membersOf v? := by
    rw [hrows]
    exact List.mem_map_of_mem he
  match v? with
  | none => cases hmem
  | some (.obj pins) => exact (Value.distinct_obj_iff.1 ((Value.distinct_obj_iff.1 (hd _ rfl)).2 _ hmem)).1
  | some .null | some (.bool _) | some (.num _) | some (.str _) | some (.list _) => cases hmem

section Tables

variable {board pin : String} {ic : Option Value} {chips : Dict RawRoles}

theorem distinct_overlay {own : RawRoles} (hd : own.Distinct) : (overlay chips own).Distinct := by
  unfold overlay
  split
  · exact Dict.distinct_extend hd _
  · exact hd

/-- **Look-ups in a pin's own roles** below those of its chip pin. -/
theorem get?_overlay (hic : ∀ v ∈ ic, v.Distinct) (hchips : membersOf ic = chips.mapValues Value.obj)
    (own : RawRoles) : (overlay chips own).get? = overlaid ic own.get? := by
  funext key
  unfold overlay overlaid chipRole
  rw [hchips]
  cases own.get? RoleType.ic.name with
  | none => rfl
  | some v =>
    simp only [Option.bind_some, Dict.get?_mapValues]
    cases hchip : chips.get? v.varText with
    | none => rfl
    | some roles =>
      exact Dict.get?_extend own roles key (distinct_of_mem_rows hic hchips (Dict.mem_of_get? hchip))

theorem chipRoles_eq_ok_iff {roles : RawRoles} (hd : roles.Distinct) {m : RoleMap} :
    chipRoles board pin roles = .ok m ↔
      Readable roles.get? ∧ m = ⟨fun r => (toldApart roles.get? r.name).map valueOf⟩ :=
  splitAliases_roleMapOf_eq_ok_iff hd

/-- **One pin** can be read if its roles can, those of its chip pin among them. -/
theorem pinRoles_eq_ok_iff (hic : ∀ v ∈ ic, v.Distinct) (hchips : membersOf ic = chips.mapValues Value.obj)
    {own : RawRoles} (hd : own.Distinct) {m : RoleMap} :
    pinRoles board chips pin own = .ok m ↔ Readable (overlaid ic own.get?) ∧
      m = RoleMap.inferIo ⟨fun r => (toldApart (overlaid ic own.get?) r.name).map valueOf⟩ := by
  have hoverlay : (overlay chips own).Distinct := distinct_overlay hd
  have hroles (n : RoleMap) := @splitAliases_roleMapOf_eq_ok_iff board pin _ hoverlay n
  rw [get?_overlay hic hchips] at hroles
  have hsteps : pinRoles board chips pin own =
      (splitAliases board pin (overlay chips own) >>= roleMapOf board pin) >>= fun n => .ok n.inferIo := by
    unfold pinRoles
    cases splitAliases board pin (overlay chips own) <;> rfl
  rw [hsteps, Except.bind_eq_ok]
  simp only [hroles]
  constructor
  · rintro ⟨_, ⟨hreadable, rfl⟩, ⟨⟩⟩
    exact ⟨hreadable, rfl⟩
  · rintro ⟨hreadable, rfl⟩
    exact ⟨_, ⟨hreadable, rfl⟩, rfl⟩

end Tables

theorem get?_of_forall₂ {β γ : Type} {R : String → β → γ → Prop} {d : Dict β} {out : Dict γ}
    (h : List.Forall₂ (fun e o => e.1 = o.1 ∧ R e.1 e.2 o.2) d out) :
    out.keys = d.keys ∧ ∀ key x, d.get? key = some x → ∃ y, out.get? key = some y ∧ R key x y := by
  induction h with
  | nil => exact ⟨rfl, fun _ _ h => nomatch h⟩
  | @cons e o d out hfirst _ ih =>
    obtain ⟨k, x⟩ := e
    obtain ⟨k', y⟩ := o
    obtain ⟨rfl, hR⟩ : k = k' ∧ R k x y := hfirst
    refine ⟨congrArg (k :: ·) ih.1, fun key z hz => ?_⟩
    rw [Dict.get?_cons] at hz ⊢
    split at hz
    · next hkey =>
      cases hz
      exact ⟨y, if_pos hkey, hkey ▸ hR⟩
    · next hkey =>
      rw [if_neg hkey]
      exact ih.2 key z hz

theorem ofValues_eq_ok_iff {board : String} {ic pinout : Option Value} {p : Pinout} :
    ofValues board ic pinout = .ok p ↔
      ∃ chips rows, rawTable board "ic" ic = .ok chips ∧ rawTable board "pinout" pinout = .ok rows ∧
        List.Forall₂ (fun e o => e.1 = o.1 ∧ chipRoles board e.1 e.2 = .ok o.2) chips p.ic ∧
        List.Forall₂ (fun e o => e.1 = o.1 ∧ pinRoles board chips e.1 e.2 = .ok o.2) rows p.pins := by
  unfold ofValues
  simp only [Except.bind_eq_ok, mapM_entries_eq_ok_iff]
  constructor
  · rintro ⟨chips, hchips, rows, hrows, _, hic, _, hpins, ⟨⟩⟩
    exact ⟨chips, rows, hchips, hrows, hic, hpins⟩
  · rintro ⟨chips, rows, hchips, hrows, hic, hpins⟩
    exact ⟨chips, hchips, rows, hrows, _, hic, _, hpins, rfl⟩

theorem exists_forall₂_iff {ε β γ : Type} {f : String → β → Except ε γ} {d : Dict β} :
    (∃ out : Dict γ, List.Forall₂ (fun e o => e.1 = o.1 ∧ f e.1 e.2 = .ok o.2) d out) ↔
      ∀ e ∈ d, ∃ y, f e.1 e.2 = .ok y := by
  simp only [← mapM_entries_eq_ok_iff, Except.exists_mapM_eq_ok_iff, Except.map_eq_ok]
  refine forall₂_congr fun e _ => ⟨?_, ?_⟩
  · rintro ⟨_, y, hy, -⟩
    exact ⟨y, hy⟩
  · rintro ⟨y, hy⟩
    exact ⟨_, y, hy, rfl⟩

/-- **A pinout can be read** if both tables are, if the roles of every chip pin can be read, and if those of every pin
below the ones of its chip pin can. -/
theorem exists_ofValues_eq_ok_iff (board : String) {ic pinout : Option Value}
    (hic : ∀ v ∈ ic, v.Distinct) (hpinout : ∀ v ∈ pinout, v.Distinct) :
    (∃ p, ofValues board ic pinout = .ok p) ↔
      (IsTable ic ∧ IsTable pinout) ∧ (∀ e ∈ membersOf ic, Readable e.2.get?) ∧
        ∀ e ∈ membersOf pinout, Readable (overlaid ic e.2.get?) := by
  have hchip {chips : Dict RawRoles} (h : membersOf ic = chips.mapValues Value.obj) :
      (∀ e ∈ chips, ∃ m, chipRoles board e.1 e.2 = .ok m) ↔ ∀ e ∈ membersOf ic, Readable e.2.get? := by
    rw [h, Dict.mapValues, List.forall_mem_map]
    refine forall₂_congr fun e he => ?_
    simp only [chipRoles_eq_ok_iff (distinct_of_mem_rows hic h he), exists_and_left, exists_eq, and_true]
    rfl
  have hpin {chips rows : Dict RawRoles} (h : membersOf ic = chips.mapValues Value.obj)
      (h' : membersOf pinout = rows.mapValues Value.obj) :
      (∀ e ∈ rows, ∃ m, pinRoles board chips e.1 e.2 = .ok m) ↔
        ∀ e ∈ membersOf pinout, Readable (overlaid ic e.2.get?) := by
    rw [h', Dict.mapValues, List.forall_mem_map]
    refine forall₂_congr fun e he => ?_
    simp only [pinRoles_eq_ok_iff hic h (distinct_of_mem_rows hpinout h' he), exists_and_left, exists_eq,
      and_true]
    rfl
  constructor
  · rintro ⟨p, hp⟩
    obtain ⟨chips, rows, hchips, hrows, hicRoles, hpinRoles⟩ := ofValues_eq_ok_iff.1 hp
    have hmembers := (rawTable_eq_ok_iff.1 hchips).2
    refine ⟨⟨exists_rawTable_eq_ok_iff.1 ⟨chips, hchips⟩, exists_rawTable_eq_ok_iff.1 ⟨rows, hrows⟩⟩, ?_, ?_⟩
    · exact (hchip hmembers).1 (exists_forall₂_iff.1 ⟨_, hicRoles⟩)
    · exact (hpin hmembers (rawTable_eq_ok_iff.1 hrows).2).1 (exists_forall₂_iff.1 ⟨_, hpinRoles⟩)
  · rintro ⟨⟨hicTable, hpinTable⟩, hicRoles, hpinRoles⟩
    obtain ⟨chips, hchips⟩ : ∃ chips, rawTable board "ic" ic = .ok chips := exists_rawTable_eq_ok_iff.2 hicTable
    obtain ⟨rows, hrows⟩ : ∃ rows, rawTable board "pinout" pinout = .ok rows :=
      exists_rawTable_eq_ok_iff.2 hpinTable
    have hmembers := (rawTable_eq_ok_iff.1 hchips).2
    obtain ⟨chipMaps, hchipMaps⟩ := exists_forall₂_iff.2 ((hchip hmembers).2 hicRoles)
    obtain ⟨pinMaps, hpinMaps⟩ :=
      exists_forall₂_iff.2 ((hpin hmembers (rawTable_eq_ok_iff.1 hrows).2).2 hpinRoles)
    exact ⟨⟨chipMaps, pinMaps⟩, ofValues_eq_ok_iff.2 ⟨chips, rows, hchips, hrows, hchipMaps, hpinMaps⟩⟩

theorem get?_of_ofValues {board : String} {ic pinout : Option Value} (hic : ∀ v ∈ ic, v.Distinct)
    (hpinout : ∀ v ∈ pinout, v.Distinct) {p : Pinout} (h : ofValues board ic pinout = .ok p) :
    (p.ic.keys = (membersOf ic).keys ∧ ∀ pin chip, (membersOf ic).get? pin = some chip →
      p.ic.get? pin = some ⟨fun r => (toldApart chip.get? r.name).map valueOf⟩) ∧
    p.pins.keys = (membersOf pinout).keys ∧ ∀ pin own, (membersOf pinout).get? pin = some own →
      p.pins.get? pin =
        some (RoleMap.inferIo ⟨fun r => (toldApart (overlaid ic own.get?) r.name).map valueOf⟩) := by
  obtain ⟨chips, rows, hchips, hrows, hicRoles, hpinRoles⟩ := ofValues_eq_ok_iff.1 h
  have hicMembers := (rawTable_eq_ok_iff.1 hchips).2
  have hpinMembers := (rawTable_eq_ok_iff.1 hrows).2
  obtain ⟨hicKeys, hicGet⟩ := get?_of_forall₂ (R := fun pin roles m => chipRoles board pin roles = .ok m) hicRoles
  obtain ⟨hpinKeys, hpinGet⟩ :=
    get?_of_forall₂ (R := fun pin own m => pinRoles board chips pin own = .ok m) hpinRoles
  rw [hicMembers, hpinMembers, Dict.keys_mapValues, Dict.keys_mapValues]
  simp only [Dict.get?_mapValues, Option.map_eq_some_iff]
  refine ⟨⟨hicKeys, ?_⟩, hpinKeys, ?_⟩
  · rintro pin _ ⟨roles, hroles, rfl⟩
    obtain ⟨m, hm, hchip⟩ := hicGet pin roles hroles
    have hd : Dict.Distinct roles := distinct_of_mem_rows hic hicMembers (Dict.mem_of_get? hroles)
    rw [hm, ((chipRoles_eq_ok_iff hd).1 hchip).2]
    rfl
  · rintro pin _ ⟨own, hown, rfl⟩
    obtain ⟨m, hm, hpin⟩ := hpinGet pin own hown
    have hd : Dict.Distinct own := distinct_of_mem_rows hpinout hpinMembers (Dict.mem_of_get? hown)
    rw [hm, ((pinRoles_eq_ok_iff hic hicMembers hd).1 hpin).2]
    rfl

theorem name_ne_aliasKey (r : RoleType) : r.name ≠ aliasKey := by cases r <;> decide

theorem toldApart_name (roles : RoleSet) {r : RoleType} (hd : r ≠ .ardD) (ha : r ≠ .ardA) :
    toldApart roles r.name = roles r.name := by
  cases r <;> first | rfl | contradiction

theorem toldApart_alias (roles : RoleSet) (kind : AliasKind) :
    toldApart roles kind.roleType.name =
      ((givenAliases roles kind).head?.map Value.str).or (roles kind.roleType.name) := by
  cases kind <;> rfl

/-- **The roles of all pins.** A pinout can be read exactly if the roles of every chip pin, and of every pin below
those of its chip pin, can be. Each pin then has a direction, its aliases under their kinds, and every other role as
the chip pin gives it, else as it says itself. -/
theorem ofValues_roles (board : String) (ic pinout : Option Value) (hic : ∀ v ∈ ic, v.Distinct)
    (hpinout : ∀ v ∈ pinout, v.Distinct) :
    ((∃ p, ofValues board ic pinout = .ok p) ↔
      (IsTable ic ∧ IsTable pinout) ∧ (∀ e ∈ membersOf ic, Readable e.2.get?) ∧
        ∀ e ∈ membersOf pinout, Readable (overlaid ic e.2.get?)) ∧
    ∀ p, ofValues board ic pinout = .ok p →
      (p.ic.keys = (membersOf ic).keys ∧ ∀ pin chip, (membersOf ic).get? pin = some chip →
        p.ic.get? pin = some ⟨fun r => (toldApart chip.get? r.name).map valueOf⟩) ∧
      p.pins.keys = (membersOf pinout).keys ∧
      ∀ pin own, (membersOf pinout).get? pin = some own → ∃ m, p.pins.get? pin = some m ∧
        m.has .io = true ∧
        (m.get? .gnd = (overlaid ic own.get? RoleType.gnd.name).map fun _ => .text "GND") ∧
        (∀ e ∈ m.entries, e.1.name ≠ aliasKey) ∧
        (∀ kind : AliasKind, m.get? kind.roleType =
          (((givenAliases (overlaid ic own.get?) kind).head?.map Value.str).or
            (overlaid ic own.get? kind.roleType.name)).map valueOf) ∧
        ∀ r, r ≠ .io → r ≠ .gnd → r ≠ .ardD → r ≠ .ardA →
          m.get? r = ((chipRole ic own.get? r.name).or (own.get? r.name)).map valueOf := by
  refine ⟨exists_ofValues_eq_ok_iff board hic hpinout, fun p hp => ?_⟩
  obtain ⟨hchips, hkeys, hget⟩ := get?_of_ofValues hic hpinout hp
  refine ⟨hchips, hkeys, fun pin own hown => ⟨_, hget pin own hown, RoleMap.has_io_inferIo _, ?_, ?_, ?_, ?_⟩⟩
  · rw [RoleMap.get?_inferIo, if_pos rfl, Option.map_map]
    exact congrArg (Option.map _) (toldApart_name _ (by decide) (by decide))
  · exact fun e _ => name_ne_aliasKey e.1
  · intro kind
    rw [RoleMap.get?_inferIo, if_neg (by cases kind <;> decide), if_neg (by cases kind <;> decide)]
    exact congrArg (Option.map valueOf) (toldApart_alias _ kind)
  · intro r hio hgnd hd ha
    rw [RoleMap.get?_inferIo, if_neg hgnd, if_neg hio]
    exact congrArg (Option.map valueOf) (toldApart_name _ hd ha)

/-- A chip pin with two aliases. -/
def chipTable : Value :=
  .obj [("12", .obj [("GPIO", .str "P8"), ("ARD", .list [.str "D3", .str "A0"])])]

/-- A pin that names the chip pin, and a ground pin. -/
def pinTable : Value :=
  .obj [("3", .obj [("IC", .str "12"), ("GPIO", .str "P0"), ("ADC", .str "1")]), ("4", .obj [("GND", .null)])]

theorem ofValues_roles_chipPins :
    (∀ v ∈ some chipTable, v.Distinct) ∧ (∀ v ∈ some pinTable, v.Distinct) ∧
      ∃ p, ofValues "board" (some chipTable) (some pinTable) = .ok p ∧ p.pins.keys = ["3", "4"] ∧
        (∃ m, p.pins.get? "3" = some m ∧ m.has .io = true ∧ m.get? .ardD = some (.text "D3") ∧
          m.get? .ardA = some (.text "A0") ∧ m.get? .gpio = some (.text "P8") ∧
          m.get? .adc = some (.text "1") ∧ m.get? .pwm = none) ∧
        ∃ m, p.pins.get? "4" = some m ∧ m.has .io = true ∧ m.get? .gnd = some (.text "GND") := by
  have hic : ∀ v ∈ some chipTable, v.Distinct := by
    simp [chipTable, Value.Distinct, Value.DistinctItems, Value.DistinctMembers, Dict.Distinct, Dict.keys]
  have hpins : ∀ v ∈ some pinTable, v.Distinct := by
    simp [pinTable, Value.Distinct, Value.DistinctMembers, Dict.Distinct, Dict.keys]
  have hread : ∃ p, ofValues "board" (some chipTable) (some pinTable) = .ok p := ⟨_, rfl⟩
  obtain ⟨p, hp⟩ := hread
  obtain ⟨-, hkeys, hroles⟩ := (ofValues_roles "board" _ _ hic hpins).2 p hp
  obtain ⟨m, hm, hio, -, -, halias, hrole⟩ := hroles "3" _ rfl
  obtain ⟨n, hn, hio', hgnd, -⟩ := hroles "4" _ rfl
  exact ⟨hic, hpins, p, hp, hkeys, ⟨m, hm, hio, halias .digital, halias .analog,
    hrole .gpio (by decide) (by decide) (by decide) (by decide),
    hrole .adc (by decide) (by decide) (by decide) (by decide),
    hrole .pwm (by decide) (by decide) (by decide) (by decide)⟩, n, hn, hio', hgnd⟩

end Pinout

end BoardAtlas
