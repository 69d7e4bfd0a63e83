import ZeroNat.Uplink.Exit

/-!
# The exit routes are undone

Whatever a bring-up and the assertions after it were answered, the drop leaves the table as it was
before, without the routes that the guard set out to hold.  While a half that was not there before
points at the tunnel, the pin of the server is there, but for an assertion that moves it.
-/

namespace ZeroNat.Uplink

/-! ### What a request does to the table -/

theorem kernel_add (fault : Bool) (r : Route) (table : Finset Route) :
  (kernel fault true r table).2 =
    if (kernel fault true r table).1 = .failed then table else insert r table
  := by
  unfold kernel
  by_cases hf : fault = true
  · simp [hf]
  · by_cases hr : r ∈ table
    · simp [hf, hr]
    · simp [hf, hr]

/-- What is added without being refused is there. -/
theorem kernel_unrefused_add (r : Route) (table : Finset Route) :
  (kernel false true r table).2 = insert r table
  := by
  unfold kernel
  by_cases hr : r ∈ table
  · simp [hr]
  · simp [hr]

/-- What is deleted without being refused is gone. -/
theorem kernel_unrefused_delete (r : Route) (table : Finset Route) :
  (kernel false false r table).2 = table.erase r
  := by
  unfold kernel
  by_cases hr : r ∈ table
  · simp [hr]
  · simp [hr]

theorem kernel_delete (fault : Bool) (r : Route) (table : Finset Route) :
  (kernel fault false r table).2 = table ∨ (kernel fault false r table).2 = table.erase r
  := by
  cases fault with
  | true => exact .inl rfl
  | false => exact .inr (kernel_unrefused_delete r table)

theorem RouteChange.apply_eq (c : RouteChange) (fault : Bool) (table : Finset Route) :
  c.apply fault table = kernel fault c.add c.route table
  := rfl

/-! ### The routes of the guard -/

/-- The pin as a route. -/
def UplinkPin.route (pin : UplinkPin) : Route :=
  (pin.change true).route

/-- The halves as routes. -/
def halves (tun : List Char) : List Route :=
  (halfChanges true tun).map RouteChange.route

/-- The routes that a guard set out to hold: a pin for every address, and the halves. -/
def ownRoutes (pin : UplinkPin) (tun : List Char) (asked : List Ipv4Addr) : List Route :=
  asked.map (fun a => (pin.withAddr a).route) ++ halves tun

/-- The route of a default as it is deleted and restored. -/
def CapturedDefault.route (d : CapturedDefault) : Route :=
  requested ⟨0⟩ 0 (if d.gateway ≠ ⟨0⟩ then some d.gateway else none) d.iface d.metric

@[simp]
theorem UplinkPin.withAddr_addr (pin : UplinkPin) :
  pin.withAddr pin.addr = pin
  := by
  cases pin <;> rfl

@[simp]
theorem UplinkPin.addr_withAddr (pin : UplinkPin) (a : Ipv4Addr) :
  (pin.withAddr a).addr = a
  := by
  cases pin <;> rfl

@[simp]
theorem UplinkPin.withAddr_withAddr (pin : UplinkPin) (a b : Ipv4Addr) :
  (pin.withAddr a).withAddr b = pin.withAddr b
  := by
  cases pin <;> rfl

theorem UplinkPin.plen_route (pin : UplinkPin) :
  pin.route.plen = 32
  := by
  cases pin <;> rfl

theorem UplinkPin.route_change (pin : UplinkPin) (add : Bool) :
  (pin.change add).route = pin.route
  := by
  cases pin <;> rfl

theorem UplinkPin.add_change (pin : UplinkPin) (add : Bool) :
  (pin.change add).add = add
  := by
  cases pin <;> rfl

/-- The routes of the changes of the base guard. -/
theorem map_route_baseChanges (pin : UplinkPin) (tun : List Char) (add : Bool) :
  (baseChanges pin tun add).map RouteChange.route = pin.route :: halves tun
  := by
  rw [baseChanges, List.map_cons, UplinkPin.route_change]
  rfl

theorem of_mem_baseChanges {pin : UplinkPin} {tun : List Char} {add : Bool} {c : RouteChange}
    (h : c ∈ baseChanges pin tun add) :
  c.add = add ∧ c.route ∈ pin.route :: halves tun
  := by
  refine ⟨?_, ?_⟩
  · obtain rfl | h := List.mem_cons.mp h
    · exact pin.add_change add
    · obtain ⟨half, _, rfl⟩ := List.mem_map.mp h
      rfl
  · rw [← map_route_baseChanges pin tun add]
    exact List.mem_map_of_mem h

/-- The pin is removed last. -/
theorem route_mem_halves {pin : UplinkPin} {tun : List Char} {c : RouteChange}
    {todo : List RouteChange} (h : c :: todo <:+ (baseChanges pin tun false).reverse)
    (hrest : todo ≠ []) :
  c.route ∈ halves tun
  := by
  obtain ⟨front, hfront⟩ := h
  obtain ⟨todo, last, rfl⟩ := (List.eq_nil_or_concat todo).resolve_left hrest
  rw [baseChanges, List.reverse_cons, List.concat_eq_append, ← List.cons_append,
    ← List.append_assoc] at hfront
  have hmem : c ∈ halfChanges false tun := by
    rw [← List.mem_reverse, ← (List.append_inj_left' hfront rfl)]
    exact List.mem_append_right _ List.mem_cons_self
  obtain ⟨half, hhalf, rfl⟩ := List.mem_map.mp hmem
  exact List.mem_map.mpr ⟨⟨true, half.1, half.2, none, tun⟩, List.mem_map_of_mem hhalf, rfl⟩

theorem plen_of_mem_ownRoutes {pin : UplinkPin} {tun : List Char} {asked : List Ipv4Addr}
    {r : Route} (h : r ∈ ownRoutes pin tun asked) :
  r.plen ≠ 0
  := by
  obtain h | h := List.mem_append.mp h
  · obtain ⟨a, _, rfl⟩ := List.mem_map.mp h
    rw [UplinkPin.plen_route]
    decide
  · rw [plen_of_mem_halves h]
    decide

theorem CapturedDefault.notMem_ownRoutes (d : CapturedDefault) (pin : UplinkPin) (tun : List Char)
    (asked : List Ipv4Addr) :
  d.route ∉ ownRoutes pin tun asked
  := fun h => plen_of_mem_ownRoutes h rfl

theorem mem_strictChanges {ds : List CapturedDefault} {up : Bool} {c : StrictChange}
    (h : c ∈ strictChanges ds up) :
  (∃ dst, c = .v6Half up dst 1) ∨
    ∃ d ∈ ds, c = .default (!up) (if d.gateway ≠ ⟨0⟩ then some d.gateway else none) d.iface d.metric
  := by
  obtain h | h := List.mem_append.mp h
  · obtain ⟨dst, _, rfl⟩ := List.mem_map.mp h
    exact .inl ⟨dst, rfl⟩
  · obtain ⟨d, hd, rfl⟩ := List.mem_map.mp h
    exact .inr ⟨d, hd, rfl⟩

/-- A change of the strict set on the way up takes a default off, or nothing. -/
theorem apply_strict_up {ds : List CapturedDefault} {c : StrictChange}
    (h : c ∈ strictChanges ds true) (fault : Bool) (table : Finset Route) :
  (c.apply fault table).2 = table ∨ ∃ d ∈ ds, (c.apply fault table).2 = table.erase d.route
  := by
  obtain ⟨dst, rfl⟩ | ⟨d, hd, rfl⟩ := mem_strictChanges h
  · exact .inl rfl
  · obtain hsame | herase := kernel_delete fault d.route table
    · exact .inl hsame
    · exact .inr ⟨d, hd, herase⟩

theorem mem_sink {d x : CapturedDefault} {l : List CapturedDefault} :
  x ∈ sink d l ↔ x = d ∨ x ∈ l
  := by
  induction l with
  | nil => simp [sink]
  | cons e l ih =>
      rw [sink]
      split
      · rw [List.mem_cons, ih, List.mem_cons, or_left_comm]
      · rw [List.mem_cons]

theorem mem_worstFirst {x : CapturedDefault} {l : List CapturedDefault} :
  x ∈ worstFirst l ↔ x ∈ l
  := by
  have hfold : ∀ front, x ∈ l.foldl (fun before d => sink d before) front ↔ x ∈ front ∨ x ∈ l := by
    induction l with
    | nil => simp
    | cons d l ih =>
        intro front
        rw [List.foldl_cons, ih, mem_sink, List.mem_cons, or_assoc, or_left_comm]
  rw [worstFirst, List.mem_reverse, hfold]
  simp

/-! ### How far a table is from the one at the start -/

/-- A table against the one at the start: it has lost nothing beyond `missing`, and the routes of
the guard in it are among `current`. -/
structure Agrees (initial table : Finset Route) (own missing current : List Route) : Prop where
  added : ∀ r ∈ table, r ∉ own → r ∈ initial
  lost : ∀ r ∈ initial, r ∉ own → r ∈ table ∨ r ∈ missing
  held : ∀ r ∈ table, r ∈ own → r ∈ current

namespace Agrees

variable {initial table : Finset Route} {own missing missing' current current' : List Route}
  {r : Route}

theorem mono (h : Agrees initial table own missing current)
    (hmissing : ∀ x ∈ missing, x ∈ missing') (hcurrent : ∀ x ∈ current, x ∈ current') :
  Agrees initial table own missing' current'
  := by
  refine ⟨h.added, ?_, ?_⟩
  · intro x hx hown
    exact (h.lost x hx hown).imp_right (hmissing x)
  · intro x hx hown
    exact hcurrent x (h.held x hx hown)

/-- One more route becomes a route of the guard. -/
theorem ask {own' : List Route} (h : Agrees initial table own missing current)
    (hown : ∀ x, x ∈ own' ↔ x ∈ own ∨ x = r) :
  Agrees initial table own' missing (r :: current)
  := by
  refine ⟨?_, ?_, ?_⟩
  · intro x hx hout
    exact h.added x hx fun hin => hout ((hown x).mpr (.inl hin))
  · intro x hx hout
    exact h.lost x hx fun hin => hout ((hown x).mpr (.inl hin))
  · intro x hx hin
    obtain hin | rfl := (hown x).mp hin
    · exact List.mem_cons_of_mem _ (h.held x hx hin)
    · exact List.mem_cons_self

/-- A route of the guard is added. -/
theorem insert_own (h : Agrees initial table own missing current) (hr : r ∈ own)
    (hcurrent : ∀ x ∈ current, x ∈ current') (hr' : r ∈ current') :
  Agrees initial (insert r table) own missing current'
  := by
  refine ⟨?_, ?_, ?_⟩
  · intro x hx hown
    obtain rfl | hx := Finset.mem_insert.mp hx
    · exact absurd hr hown
    · exact h.added x hx hown
  · intro x hx hown
    exact (h.lost x hx hown).imp_left (Finset.mem_insert_of_mem)
  · intro x hx hown
    obtain rfl | hx := Finset.mem_insert.mp hx
    · exact hr'
    · exact hcurrent x (h.held x hx hown)

/-- A route of the guard is deleted. -/
theorem erase_own (h : Agrees initial table own missing current) (hr : r ∈ own)
    (hcurrent : ∀ x ∈ current, x ≠ r → x ∈ current') :
  Agrees initial (table.erase r) own missing current'
  := by
  refine ⟨?_, ?_, ?_⟩
  · intro x hx hown
    exact h.added x (Finset.mem_of_mem_erase hx) hown
  · intro x hx hown
    have hne : x ≠ r := by
      rintro rfl
      exact hown hr
    exact (h.lost x hx hown).imp_left fun hmem => Finset.mem_erase.mpr ⟨hne, hmem⟩
  · intro x hx hown
    obtain ⟨hne, hmem⟩ := Finset.mem_erase.mp hx
    exact hcurrent x (h.held x hmem hown) hne

/-- Another route is deleted, and may be missing. -/
theorem erase_other (h : Agrees initial table own missing current) (hr : r ∈ missing) :
  Agrees initial (table.erase r) own missing current
  := by
  refine ⟨?_, ?_, ?_⟩
  · intro x hx hown
    exact h.added x (Finset.mem_of_mem_erase hx) hown
  · intro x hx hown
    by_cases hne : x = r
    · rw [hne]
      exact .inr hr
    · exact (h.lost x hx hown).imp_left fun hmem => Finset.mem_erase.mpr ⟨hne, hmem⟩
  · intro x hx hown
    exact h.held x (Finset.mem_of_mem_erase hx) hown

/-- Another route is restored. -/
theorem insert_other (h : Agrees initial table own missing current) (hr : r ∈ initial)
    (hown : r ∉ own) (hmissing : ∀ x ∈ missing, x ≠ r → x ∈ missing') :
  Agrees initial (insert r table) own missing' current
  := by
  refine ⟨?_, ?_, ?_⟩
  · intro x hx hout
    obtain rfl | hx := Finset.mem_insert.mp hx
    · exact hr
    · exact h.added x hx hout
  · intro x hx hout
    by_cases hne : x = r
    · exact .inl (Finset.mem_insert.mpr (.inl hne))
    · exact (h.lost x hx hout).imp (Finset.mem_insert_of_mem) (hmissing x · hne)
  · intro x hx hin
    obtain rfl | hx := Finset.mem_insert.mp hx
    · exact absurd hin hown
    · exact h.held x hx hin

end Agrees

namespace ExitRoutes

/-! ### What holds on the way -/

/-- The defaults that the strict guard deletes and restores. -/
def strictRoutes (s : ExitRoutes) : List Route :=
  (s.defaults.getD []).map CapturedDefault.route

/-- The routes that changes of the strict set are about. -/
def restores (todo : List StrictChange) : List Route :=
  todo.filterMap fun
    | .default _ gw iface metric => some (requested ⟨0⟩ 0 gw iface metric)
    | .v6Half _ _ _ => none

theorem restores_strictChanges (ds : List CapturedDefault) (up : Bool) :
  restores (strictChanges ds up) = ds.map CapturedDefault.route
  := by
  have hhalves : restores (v6HalfDefaults.map fun dst => .v6Half up dst 1) = [] := rfl
  rw [strictChanges, restores, List.filterMap_append]
  rw [restores] at hhalves
  rw [hhalves, List.nil_append, List.filterMap_map, ← List.filterMap_eq_map']
  rfl

/-- The routes that were there at the start and may be deleted. -/
def missing (s : ExitRoutes) : List Route :=
  match s.phase with
  | .base _ | .unbase _ | .dropped => []
  | .strict _ | .held | .unpin _ | .repin => s.strictRoutes
  | .unstrict todo => restores todo

/-- The routes of the guard that may be in the table. -/
def current (s : ExitRoutes) : List Route :=
  match s.phase with
  | .base _ | .strict _ | .held | .repin | .unstrict _ => s.pin.route :: halves s.tunName
  | .unpin server => s.pin.route :: (s.pin.withAddr server).route :: halves s.tunName
  | .unbase todo => todo.map RouteChange.route
  | .dropped => []

/-- A half that was not there at the start is in the table. -/
def Diverted (initial : Finset Route) (s : ExitRoutes) : Prop :=
  ∃ r ∈ halves s.tunName, r ∈ s.table ∧ r ∉ initial

/-- The pin of the server is in the table, or is being moved. -/
def Pinned (s : ExitRoutes) : Prop :=
  s.pin.route ∈ s.table ∨ s.moved = true

/-- What is still to be done in a phase, and the pin meanwhile. -/
def Progress (initial : Finset Route) (s : ExitRoutes) : Prop :=
  match s.phase with
  | .base todo =>
      todo = baseChanges s.pin s.tunName true ∧ s.table = initial ∨
        todo <:+ halfChanges true s.tunName ∧ s.Pinned
  | .strict todo => (∃ ds, s.defaults = some ds ∧ todo <:+ strictChanges ds true) ∧ s.Pinned
  | .held | .unpin _ | .repin => s.Pinned
  | .unstrict todo =>
      (∃ ds, s.defaults = some ds ∧ todo <:+ (strictChanges ds false).reverse) ∧ s.Pinned
  | .unbase todo =>
      todo <:+ (baseChanges s.pin s.tunName false).reverse ∧ (s.Diverted initial → s.Pinned)
  | .dropped => True

/-- What holds in every state, when the guard was asked for the pins of some addresses. -/
structure Inv (initial : Finset Route) (pin : UplinkPin) (tun : List Char) (asked : List Ipv4Addr)
    (s : ExitRoutes) : Prop where
  tun_eq : s.tunName = tun
  pin_eq : ∀ a, s.pin.withAddr a = pin.withAddr a
  asked_pin : s.pin.addr ∈ asked
  asked_next : ∀ server, s.phase = .unpin server → server ∈ asked
  restorable : ∀ r ∈ s.strictRoutes, r ∈ initial
  agrees : Agrees initial s.table (ownRoutes pin tun asked) s.missing s.current
  progress : s.Progress initial

/-! ### Requests -/

namespace Inv

variable {initial : Finset Route} {pin : UplinkPin} {tun : List Char} {asked : List Ipv4Addr}
  {s t : ExitRoutes} {fault : Bool}

theorem pin_mem_own (h : s.Inv initial pin tun asked) :
  s.pin.route ∈ ownRoutes pin tun asked
  := by
  rw [← s.pin.withAddr_addr, h.pin_eq]
  exact List.mem_append_left _ (List.mem_map_of_mem h.asked_pin)

theorem half_mem_own (h : s.Inv initial pin tun asked) {r : Route} (hr : r ∈ halves s.tunName) :
  r ∈ ownRoutes pin tun asked
  := by
  rw [h.tun_eq] at hr
  exact List.mem_append_right _ hr

theorem mem_own (h : s.Inv initial pin tun asked) {r : Route}
    (hr : r ∈ s.pin.route :: halves s.tunName) :
  r ∈ ownRoutes pin tun asked
  := by
  obtain rfl | hr := List.mem_cons.mp hr
  · exact h.pin_mem_own
  · exact h.half_mem_own hr

/-- Dropping the base guard. -/
theorem dropBase (h : s.Inv initial pin tun asked)
    (hmissing : s.missing = []) (hcurrent : s.current = s.pin.route :: halves s.tunName)
    (hpinned : s.Diverted initial → s.Pinned) :
  s.dropBase.Inv initial pin tun asked where
  tun_eq := h.tun_eq
  pin_eq := h.pin_eq
  asked_pin := h.asked_pin
  asked_next _ heq := by simp [ExitRoutes.dropBase] at heq
  restorable := h.restorable
  agrees := by
    have hag := h.agrees
    rw [hmissing, hcurrent] at hag
    refine hag.mono (fun _ hx => hx) ?_
    intro x hx
    rw [← map_route_baseChanges s.pin s.tunName false] at hx
    change x ∈ (baseChanges s.pin s.tunName false).reverse.map RouteChange.route
    rwa [List.map_reverse, List.mem_reverse]
  progress := ⟨List.suffix_rfl, hpinned⟩

/-- Dropping both guards. -/
theorem dropAll (h : s.Inv initial pin tun asked) (hmissing : s.missing = s.strictRoutes)
    (hcurrent : s.current = s.pin.route :: halves s.tunName) (hpinned : s.Pinned) :
  s.dropAll.Inv initial pin tun asked
  := by
  rw [ExitRoutes.dropAll]
  split
  · rename_i hds
    refine h.dropBase ?_ hcurrent fun _ => hpinned
    rw [hmissing, strictRoutes, hds]
    rfl
  · rename_i ds hds
    have hag := h.agrees
    rw [hmissing, hcurrent, strictRoutes, hds, Option.getD_some] at hag
    refine ⟨h.tun_eq, h.pin_eq, h.asked_pin, fun _ heq => by simp at heq, h.restorable, ?_,
      ⟨⟨ds, hds, List.suffix_rfl⟩, hpinned⟩⟩
    refine hag.mono ?_ fun _ hx => hx
    intro x hx
    change x ∈ restores (strictChanges ds false).reverse
    rwa [restores, List.filterMap_reverse, List.mem_reverse, ← restores, restores_strictChanges]

/-- The base set is complete, and the strict set begins. -/
theorem enterStrict (h : s.Inv initial pin tun asked) (hp : s.phase = .base []) :
  s.enterStrict.Inv initial pin tun asked
  := by
  have hag := h.agrees
  have hmissing : s.missing = [] := by rw [missing, hp]
  have hcurrent : s.current = s.pin.route :: halves s.tunName := by rw [current, hp]
  rw [hmissing, hcurrent] at hag
  have hpinned : s.Pinned := by
    have := h.progress
    rw [Progress, hp] at this
    obtain ⟨heq, _⟩ | ⟨_, hpinned⟩ := this
    · simp [baseChanges] at heq
    · exact hpinned
  rw [ExitRoutes.enterStrict]
  split
  · refine ⟨h.tun_eq, h.pin_eq, h.asked_pin, fun _ heq => by simp at heq, h.restorable, ?_,
      hpinned⟩
    exact hag.mono (by simp) fun _ hx => hx
  · rename_i ds hds
    refine ⟨h.tun_eq, h.pin_eq, h.asked_pin, fun _ heq => by simp at heq, ?_, ?_,
      ⟨⟨worstFirst ds, rfl, List.suffix_rfl⟩, hpinned⟩⟩
    · intro r hr
      apply h.restorable
      rw [strictRoutes] at hr ⊢
      rw [hds, Option.getD_some]
      rw [Option.getD_some, List.mem_map] at hr
      obtain ⟨d, hd, rfl⟩ := hr
      exact List.mem_map_of_mem (mem_worstFirst.mp hd)
    · exact hag.mono (by simp) fun _ hx => hx

/-- A request of the base set. -/
theorem next_base (h : s.Inv initial pin tun asked) {c : RouteChange} {todo : List RouteChange}
    (hp : s.phase = .base (c :: todo)) (ht : s.next fault = some t) :
  t.Inv initial pin tun asked
  := by
  have hag := h.agrees
  have hmissing : s.missing = [] := by rw [missing, hp]
  have hcurrent : s.current = s.pin.route :: halves s.tunName := by rw [current, hp]
  have hprogress := h.progress
  rw [Progress, hp] at hprogress
  have hc : c.add = true ∧ c.route ∈ s.pin.route :: halves s.tunName := by
    apply of_mem_baseChanges
    obtain ⟨htodo, _⟩ | ⟨htodo, _⟩ := hprogress
    · rw [← htodo]
      exact List.mem_cons_self
    · exact List.mem_cons_of_mem _ (htodo.subset List.mem_cons_self)
  have hadd := kernel_add fault c.route s.table
  rw [next, hp] at ht
  dsimp only at ht
  rw [RouteChange.apply_eq, hc.1] at ht
  split at ht
  · rename_i hfailed
    rw [if_pos hfailed] at hadd
    rw [hadd] at ht
    obtain rfl := Option.some.inj ht
    refine h.dropBase hmissing hcurrent ?_
    obtain ⟨_, hinitial⟩ | ⟨_, hpinned⟩ := hprogress
    · rintro ⟨r, _, hin, hout⟩
      rw [hinitial] at hin
      exact absurd hin hout
    · exact fun _ => hpinned
  · rename_i hanswered
    rw [if_neg hanswered] at hadd
    rw [hadd] at ht
    obtain rfl := Option.some.inj ht
    refine ⟨h.tun_eq, h.pin_eq, h.asked_pin, fun _ heq => by simp at heq, h.restorable, ?_, ?_⟩
    · rw [hmissing, hcurrent] at hag
      exact hag.insert_own (h.mem_own hc.2) (fun _ hx => hx) hc.2
    · right
      obtain ⟨htodo, _⟩ | ⟨htodo, hpinned⟩ := hprogress
      · obtain ⟨rfl, rfl⟩ := List.cons.inj htodo
        exact ⟨List.suffix_rfl, .inl (Finset.mem_insert_self _ _)⟩
      · exact ⟨(List.suffix_cons c todo).trans htodo,
          hpinned.imp_left Finset.mem_insert_of_mem⟩

/-- A request of the strict set. -/
theorem next_strict (h : s.Inv initial pin tun asked) {c : StrictChange}
    {todo : List StrictChange} (hp : s.phase = .strict (c :: todo))
    (ht : s.next fault = some t) :
  t.Inv initial pin tun asked
  := by
  have hprogress := h.progress
  rw [Progress, hp] at hprogress
  obtain ⟨⟨ds, hds, htodo⟩, hpinned⟩ := hprogress
  have hmissing : ∀ d ∈ ds, d.route ∈ s.missing := by
    intro d hd
    rw [missing, hp, strictRoutes, hds]
    exact List.mem_map_of_mem hd
  -- the table after the request, with the phase as it was
  have hmid : Inv initial pin tun asked { s with table := (c.apply fault s.table).2 } := by
    obtain hsame | ⟨d, hd, herase⟩ :=
      apply_strict_up (htodo.subset List.mem_cons_self) fault s.table
    · rw [hsame]
      exact h
    · rw [herase]
      refine ⟨h.tun_eq, h.pin_eq, h.asked_pin, h.asked_next, h.restorable,
        h.agrees.erase_other (hmissing d hd), ?_⟩
      rw [Progress]
      dsimp only
      rw [hp]
      refine ⟨⟨ds, hds, htodo⟩, hpinned.imp_left ?_⟩
      intro hmem
      refine Finset.mem_erase.mpr ⟨?_, hmem⟩
      intro heq
      have hplen : d.route.plen = 32 := heq ▸ s.pin.plen_route
      exact absurd (show 0 = 32 from hplen) (by decide)
  have hprogress' := hmid.progress
  rw [Progress] at hprogress'
  dsimp only at hprogress'
  rw [hp] at hprogress'
  rw [next, hp] at ht
  dsimp only at ht
  split at ht
  · obtain rfl := Option.some.inj ht
    refine ⟨h.tun_eq, h.pin_eq, h.asked_pin, fun _ heq => by simp at heq, h.restorable, ?_,
      ⟨⟨ds, hds, (List.suffix_cons c todo).trans htodo⟩, hprogress'.2⟩⟩
    have hag := hmid.agrees
    rw [missing, current] at hag
    dsimp only at hag
    rwa [hp] at hag
  · obtain rfl := Option.some.inj ht
    refine hmid.dropAll ?_ ?_ hprogress'.2
    · rw [missing]
      dsimp only
      rw [hp]
    · rw [current]
      dsimp only
      rw [hp]

/-- The pin of the old address is taken off. -/
theorem next_unpin (h : s.Inv initial pin tun asked) {server : Ipv4Addr}
    (hp : s.phase = .unpin server) (hfault : fault = false) (ht : s.next fault = some t) :
  t.Inv initial pin tun asked
  := by
  have hag := h.agrees
  rw [missing, current, hp] at hag
  dsimp only at hag
  rw [next, hp] at ht
  obtain rfl := Option.some.inj ht
  have happly : ((s.pin.change false).apply fault s.table).2 = s.table.erase s.pin.route := by
    rw [hfault, RouteChange.apply_eq, UplinkPin.route_change, UplinkPin.add_change,
      kernel_unrefused_delete]
  refine ⟨h.tun_eq, ?_, ?_, fun _ heq => by simp at heq, h.restorable, ?_, .inr rfl⟩
  · intro a
    rw [UplinkPin.withAddr_withAddr, h.pin_eq]
  · rw [UplinkPin.addr_withAddr]
    exact h.asked_next server hp
  · rw [happly]
    refine hag.erase_own h.pin_mem_own ?_
    intro x hx hne
    exact (List.mem_cons.mp hx).resolve_left hne

/-- The pin is added. -/
theorem next_repin (h : s.Inv initial pin tun asked) (hp : s.phase = .repin)
    (ht : s.next fault = some t) :
  t.Inv initial pin tun asked
  := by
  have hag := h.agrees
  rw [missing, current, hp] at hag
  dsimp only at hag
  have hpinned := h.progress
  rw [Progress, hp] at hpinned
  have hadd := kernel_add fault s.pin.route s.table
  rw [next, hp] at ht
  dsimp only at ht
  rw [RouteChange.apply_eq, UplinkPin.route_change, UplinkPin.add_change] at ht
  obtain rfl := Option.some.inj ht
  refine ⟨h.tun_eq, h.pin_eq, h.asked_pin, fun _ heq => by simp at heq, h.restorable, ?_, ?_⟩
  · dsimp only
    rw [hadd]
    split
    · exact hag
    · exact hag.insert_own h.pin_mem_own (fun _ hx => hx) List.mem_cons_self
  · rw [Progress, Pinned]
    dsimp only
    rw [hadd]
    split
    · exact hpinned
    · exact .inl (Finset.mem_insert_self _ _)

/-- A request of the drop of the strict guard. -/
theorem next_unstrict (h : s.Inv initial pin tun asked) {c : StrictChange}
    {todo : List StrictChange} (hp : s.phase = .unstrict (c :: todo)) (hfault : fault = false)
    (ht : s.next fault = some t) :
  t.Inv initial pin tun asked
  := by
  have hag := h.agrees
  rw [missing, current, hp] at hag
  dsimp only at hag
  have hprogress := h.progress
  rw [Progress, hp] at hprogress
  obtain ⟨⟨ds, hds, htodo⟩, hpinned⟩ := hprogress
  have hsuffix := (List.suffix_cons c todo).trans htodo
  have hc := List.mem_reverse.mp (htodo.subset List.mem_cons_self)
  rw [next, hp] at ht
  obtain rfl := Option.some.inj ht
  obtain ⟨dst, rfl⟩ | ⟨d, hd, rfl⟩ := mem_strictChanges hc
  · exact ⟨h.tun_eq, h.pin_eq, h.asked_pin, fun _ heq => by simp at heq, h.restorable, hag,
      ⟨⟨ds, hds, hsuffix⟩, hpinned⟩⟩
  · have happly : ((StrictChange.default (!false)
        (if d.gateway ≠ ⟨0⟩ then some d.gateway else none) d.iface d.metric).apply fault
          s.table).2 = insert d.route s.table := by
      rw [hfault]
      exact kernel_unrefused_add d.route s.table
    have hinitial : d.route ∈ initial := by
      apply h.restorable
      rw [strictRoutes, hds]
      exact List.mem_map_of_mem hd
    refine ⟨h.tun_eq, h.pin_eq, h.asked_pin, fun _ heq => by simp at heq, h.restorable, ?_,
      ⟨⟨ds, hds, hsuffix⟩, ?_⟩⟩
    · rw [happly]
      refine hag.insert_other hinitial (d.notMem_ownRoutes _ _ _) ?_
      intro x hx hne
      exact (List.mem_cons.mp hx).resolve_left hne
    · refine hpinned.imp_left ?_
      dsimp only
      rw [happly]
      exact Finset.mem_insert_of_mem

/-- A request of the drop of the base guard. -/
theorem next_unbase (h : s.Inv initial pin tun asked) {c : RouteChange}
    {todo : List RouteChange} (hp : s.phase = .unbase (c :: todo)) (hfault : fault = false)
    (ht : s.next fault = some t) :
  t.Inv initial pin tun asked
  := by
  have hag := h.agrees
  rw [missing, current, hp] at hag
  dsimp only at hag
  have hprogress := h.progress
  rw [Progress, hp] at hprogress
  obtain ⟨htodo, hpinned⟩ := hprogress
  have hsuffix := (List.suffix_cons c todo).trans htodo
  have hc := of_mem_baseChanges (List.mem_reverse.mp (htodo.subset List.mem_cons_self))
  have happly : (c.apply fault s.table).2 = s.table.erase c.route := by
    rw [hfault, RouteChange.apply_eq, hc.1, kernel_unrefused_delete]
  rw [next, hp] at ht
  obtain rfl := Option.some.inj ht
  have hag' : Agrees initial (s.table.erase c.route) (ownRoutes pin tun asked) []
      (todo.map RouteChange.route) := by
    refine hag.erase_own (h.mem_own hc.2) ?_
    intro x hx hne
    exact (List.mem_cons.mp hx).resolve_left hne
  refine ⟨h.tun_eq, h.pin_eq, h.asked_pin, fun _ heq => by simp at heq, h.restorable, ?_,
    ⟨hsuffix, ?_⟩⟩
  · rw [happly]
    exact hag'
  · rintro ⟨r, hr, hin, hout⟩
    dsimp only at hr hin
    rw [happly] at hin
    -- the half is still to be removed, so this change is not the one of the pin
    have hrest : todo ≠ [] := by
      rintro rfl
      exact absurd (hag'.held r hin (h.half_mem_own hr)) List.not_mem_nil
    have hhalf : c.route ∈ halves s.tunName := route_mem_halves htodo hrest
    refine (hpinned ⟨r, hr, Finset.mem_of_mem_erase hin, hout⟩).imp_left ?_
    dsimp only
    rw [happly]
    intro hmem
    refine Finset.mem_erase.mpr ⟨?_, hmem⟩
    intro heq
    have hplen := s.pin.plen_route
    rw [heq, plen_of_mem_halves hhalf] at hplen
    exact absurd hplen (by decide)

/-- What a request keeps. -/
theorem next (h : s.Inv initial pin tun asked) (hok : s.phase.undoes = true → fault = false)
    (ht : s.next fault = some t) :
  t.Inv initial pin tun asked
  := by
  cases hp : s.phase with
  | base todo =>
      cases todo with
      | nil =>
          rw [ExitRoutes.next, hp] at ht
          obtain rfl := Option.some.inj ht
          exact h.enterStrict hp
      | cons c todo => exact h.next_base hp ht
  | strict todo =>
      cases todo with
      | nil =>
          have hag := h.agrees
          have hprogress := h.progress
          rw [missing, current, hp] at hag
          rw [Progress, hp] at hprogress
          rw [ExitRoutes.next, hp] at ht
          obtain rfl := Option.some.inj ht
          exact ⟨h.tun_eq, h.pin_eq, h.asked_pin, fun _ heq => by simp at heq, h.restorable, hag,
            hprogress.2⟩
      | cons c todo => exact h.next_strict hp ht
  | held =>
      rw [ExitRoutes.next, hp] at ht
      simp at ht
  | unpin server => exact h.next_unpin hp (hok (by rw [hp]; rfl)) ht
  | repin => exact h.next_repin hp ht
  | unstrict todo =>
      cases todo with
      | nil =>
          have hprogress := h.progress
          rw [Progress, hp] at hprogress
          rw [ExitRoutes.next, hp] at ht
          obtain rfl := Option.some.inj ht
          refine h.dropBase ?_ ?_ fun _ => hprogress.2
          · rw [missing, hp]
            rfl
          · rw [current, hp]
      | cons c todo => exact h.next_unstrict hp (hok (by rw [hp]; rfl)) ht
  | unbase todo =>
      cases todo with
      | nil =>
          have hag := h.agrees
          rw [missing, current, hp] at hag
          rw [ExitRoutes.next, hp] at ht
          obtain rfl := Option.some.inj ht
          exact ⟨h.tun_eq, h.pin_eq, h.asked_pin, fun _ heq => by simp at heq, h.restorable, hag,
            trivial⟩
      | cons c todo => exact h.next_unbase hp (hok (by rw [hp]; rfl)) ht
  | dropped =>
      rw [ExitRoutes.next, hp] at ht
      simp at ht

end Inv

/-- A new half is there only with the pin. -/
theorem Inv.pinned {initial : Finset Route} {pin : UplinkPin} {tun : List Char}
    {asked : List Ipv4Addr} {s : ExitRoutes} (h : s.Inv initial pin tun asked)
    (hdiverted : s.Diverted initial) :
  s.Pinned
  := by
  have hprogress := h.progress
  obtain ⟨r, hr, hin, hout⟩ := hdiverted
  cases hp : s.phase with
  | base todo =>
      rw [Progress, hp] at hprogress
      obtain ⟨_, htable⟩ | ⟨_, hpinned⟩ := hprogress
      · rw [htable] at hin
        exact absurd hin hout
      · exact hpinned
  | strict todo =>
      rw [Progress, hp] at hprogress
      exact hprogress.2
  | held =>
      rw [Progress, hp] at hprogress
      exact hprogress
  | unpin server =>
      rw [Progress, hp] at hprogress
      exact hprogress
  | repin =>
      rw [Progress, hp] at hprogress
      exact hprogress
  | unstrict todo =>
      rw [Progress, hp] at hprogress
      exact hprogress.2
  | unbase todo =>
      rw [Progress, hp] at hprogress
      exact hprogress.2 ⟨r, hr, hin, hout⟩
  | dropped =>
      have hheld := h.agrees.held r hin (h.half_mem_own hr)
      rw [current, hp] at hheld
      exact absurd hheld List.not_mem_nil

/-- The addresses of the assertions in a run. -/
def asserted (as : List Action) : List Ipv4Addr :=
  as.filterMap fun
    | .assertPin server => some server
    | _ => none

theorem mem_ownRoutes_append {pin : UplinkPin} {tun : List Char} {asked : List Ipv4Addr}
    {server : Ipv4Addr} {r : Route} :
  r ∈ ownRoutes pin tun (asked ++ [server]) ↔
    r ∈ ownRoutes pin tun asked ∨ r = (pin.withAddr server).route
  := by
  simp only [ownRoutes, List.map_append, List.map_singleton, List.mem_append, List.mem_singleton]
  tauto

/-- What a step keeps, with the addresses that were asked for until then. -/
theorem Inv.step {initial : Finset Route} {pin : UplinkPin} {tun : List Char}
    {asked : List Ipv4Addr} {s t : ExitRoutes} {a : Action} (h : s.Inv initial pin tun asked)
    (hok : s.Unrefused a) (ht : s.step a = some t) :
  t.Inv initial pin tun (asked ++ asserted [a])
  := by
  cases a with
  | next fault =>
      rw [show asserted [Action.next fault] = [] from rfl, List.append_nil]
      exact h.next hok ht
  | drop =>
      rw [show asserted [Action.drop] = [] from rfl, List.append_nil]
      rw [ExitRoutes.step] at ht
      split at ht
      · rename_i hp
        obtain rfl := Option.some.inj ht
        have hpinned := h.progress
        rw [Progress, hp] at hpinned
        refine h.dropAll ?_ ?_ hpinned
        · rw [missing, hp]
        · rw [current, hp]
      · simp at ht
  | assertPin server =>
      rw [show asserted [Action.assertPin server] = [server] from rfl]
      rw [ExitRoutes.step] at ht
      split at ht
      · rename_i hp
        obtain rfl := Option.some.inj ht
        have hag := h.agrees
        have hpinned := h.progress
        rw [missing, current, hp] at hag
        rw [Progress, hp] at hpinned
        have hag' := hag.ask (r := (pin.withAddr server).route) fun _ => mem_ownRoutes_append
        by_cases hmoved : s.pin.addr ≠ server
        · rw [if_pos hmoved]
          refine ⟨h.tun_eq, h.pin_eq, List.mem_append_left _ h.asked_pin, ?_, h.restorable, ?_,
            hpinned⟩
          · intro server' heq
            obtain rfl : server = server' := by simpa using heq
            exact List.mem_append_right _ List.mem_cons_self
          · refine hag'.mono (fun _ hx => hx) ?_
            intro x hx
            change x ∈ s.pin.route :: (s.pin.withAddr server).route :: halves s.tunName
            rw [← h.pin_eq] at hx
            exact (List.Perm.swap _ _ _).subset hx
        · rw [if_neg hmoved]
          refine ⟨h.tun_eq, h.pin_eq, List.mem_append_left _ h.asked_pin,
            fun _ heq => by simp at heq, h.restorable, ?_, hpinned⟩
          refine hag'.mono (fun _ hx => hx) ?_
          intro x hx
          rw [← not_not.mp hmoved, ← h.pin_eq, UplinkPin.withAddr_addr] at hx
          obtain rfl | hx := List.mem_cons.mp hx
          · exact List.mem_cons_self
          · exact hx
      · simp at ht

end ExitRoutes

/-! ### From the start to the drop -/

/-- The routes of a table. -/
def routeTable (rows : List Row) : Finset Route :=
  (rows.map Row.toRoute).toFinset

/-- A default of a metric that fits is deleted and restored as it is. -/
theorem Row.route_captured (r : Row) (hdefault : r.IsDefault) (hmetric : r.metric.toNat ≤ 32766) :
  r.captured.route = r.toRoute
  := by
  have hpriority : UInt32.ofNat (rtMetric r.metric - 1) = r.metric := by
    have hmin : rtMetric r.metric - 1 = r.metric.toNat := by
      rw [rtMetric]
      omega
    rw [hmin, UInt32.ofNat_toNat]
  have hgw : (if r.gw.getD ⟨0⟩ ≠ ⟨0⟩ then some (r.gw.getD ⟨0⟩) else none) = r.gw := by
    have hne := r.specified
    cases h : r.gw with
    | none => rfl
    | some g =>
        rw [h] at hne
        exact if_pos fun heq => hne (congrArg some heq)
  rw [CapturedDefault.route, Route.captured, requested]
  dsimp only
  rw [hpriority, hgw, ← hdefault.1, ← hdefault.2]

theorem mem_outside {rows : List Row} {tun : List Char} {r : Route} (h : r ∈ outside tun rows) :
  ∃ row ∈ rows, row.toRoute = r
  := List.mem_map.mp (List.mem_of_mem_filter h)

/-- The defaults that a strict bring-up captures are those of the table. -/
theorem captured_mem_routeTable {rows : List Row} {tun : List Char}
    (hmetric : ∀ r ∈ outside tun rows, r.IsDefault → r.metric.toNat ≤ 32766)
    {d : CapturedDefault} (hd : d ∈ parseAllDefaults (render rows) tun) :
  d.route ∈ routeTable rows
  := by
  rw [parseAllDefaults, scanDefaults_render] at hd
  obtain ⟨r, hr, rfl⟩ := List.mem_map.mp hd
  obtain ⟨hr, hdefault⟩ := List.mem_filter.mp hr
  rw [decide_eq_true_iff] at hdefault
  have hfits := hmetric r hr hdefault.1
  obtain ⟨row, hrow, rfl⟩ := mem_outside hr
  rw [row.route_captured hdefault.1 hfits, routeTable, List.mem_toFinset]
  exact List.mem_map_of_mem hrow

theorem addr_planServerPin {contents tun : List Char} {server : Ipv4Addr} {pin : UplinkPin}
    (h : planServerPin contents tun server = .ok pin) :
  pin.addr = server
  := by
  rw [planServerPin] at h
  split at h
  · obtain rfl := Except.ok.inj h
    rfl
  · split at h
    · obtain rfl := Except.ok.inj h
      rfl
    · simp at h

namespace ExitRoutes

/-- The state at the start of a bring-up. -/
theorem bringUpFromTable_eq_ok {contents tun : List Char} {server : Ipv4Addr} {strict : Bool}
    {table : Finset Route} {s : ExitRoutes}
    (h : bringUpFromTable contents tun server strict table = .ok s) :
  s.pin.addr = server ∧
    s = ⟨table, s.pin, tun, s.defaults, .base (baseChanges s.pin tun true), false⟩ ∧
    ∀ ds, s.defaults = some ds → strict = true ∧ ds = parseAllDefaults contents tun
  := by
  unfold bringUpFromTable at h
  cases hpin : planServerPin contents tun server with
  | error e =>
      rw [hpin] at h
      simp [bind, Except.bind] at h
  | ok pin =>
      rw [hpin] at h
      have haddr := addr_planServerPin hpin
      cases strict with
      | false =>
          obtain rfl := Except.ok.inj h
          exact ⟨haddr, rfl, fun ds hds => by simp at hds⟩
      | true =>
          by_cases hempty : parseAllDefaults contents tun = []
          · simp [bind, Except.bind, hempty] at h
          · simp only [bind, Except.bind, if_true, hempty, if_false] at h
            obtain rfl := Except.ok.inj h
            exact ⟨haddr, rfl, fun ds hds => ⟨rfl, (Option.some.inj hds).symm⟩⟩

/-- What holds at the start of a bring-up. -/
theorem inv_bringUpFromTable {rows : List Row} {tun : List Char} {server : Ipv4Addr}
    {strict : Bool} {s : ExitRoutes}
    (hmetric : strict = true → ∀ r ∈ outside tun rows, r.IsDefault → r.metric.toNat ≤ 32766)
    (hs : bringUpFromTable (render rows) tun server strict (routeTable rows) = .ok s) :
  s.Inv (routeTable rows) s.pin tun [server]
  := by
  obtain ⟨haddr, heq, hdefaults⟩ := bringUpFromTable_eq_ok hs
  have hphase : s.phase = .base (baseChanges s.pin tun true) := by rw [heq]
  have htable : s.table = routeTable rows := by rw [heq]
  have htun : s.tunName = tun := by rw [heq]
  refine ⟨htun, fun _ => rfl, ?_, ?_, ?_, ?_, ?_⟩
  · rw [haddr]
    exact List.mem_cons_self
  · intro server' hp
    rw [hphase] at hp
    simp at hp
  · intro r hr
    cases hds : s.defaults with
    | none =>
        rw [strictRoutes, hds] at hr
        exact absurd hr List.not_mem_nil
    | some ds =>
        obtain ⟨hstrict, rfl⟩ := hdefaults ds hds
        rw [strictRoutes, hds] at hr
        obtain ⟨d, hd, rfl⟩ := List.mem_map.mp hr
        exact captured_mem_routeTable (hmetric hstrict) hd
  · rw [missing, current, hphase, htable]
    refine ⟨fun _ hr _ => hr, fun _ hr _ => .inl hr, ?_⟩
    intro r _ hr
    rw [ownRoutes, List.map_singleton, List.singleton_append, ← haddr,
      UplinkPin.withAddr_addr, ← htun] at hr
    exact hr
  · rw [Progress, hphase, htun]
    exact .inl ⟨rfl, htable⟩

/-- What holds in a run. -/
theorem inv_of_run {initial : Finset Route} {pin : UplinkPin} {tun : List Char}
    {asked : List Ipv4Addr} {s t : ExitRoutes} {as : List Action}
    (h₀ : s.Inv initial pin tun asked)
    (h : Run (Meeting Unrefused fun s a t => s.step a = some t) s as t) :
  t.Inv initial pin tun (asked ++ asserted as)
  := by
  induction h with
  | nil =>
      rw [show asserted [] = [] from rfl, List.append_nil]
      exact h₀
  | snoc _ hstep ih =>
      rw [asserted, List.filterMap_append, ← List.append_assoc]
      exact ih.step hstep.1 hstep.2

/-- When the guards are dropped, after a bring-up that failed or after any assertions, the table is
the one at the start without the halves and without the pins that were asked for.  At every point
before, a half that was not there at the start is there only with the pin of the server, or while
the pin is moved. -/
theorem exit_routes_undone (rows : List Row) (tun : List Char) (server : Ipv4Addr) (strict : Bool)
    {s t : ExitRoutes} {as : List Action}
    (hmetric : strict = true → ∀ r ∈ outside tun rows, r.IsDefault → r.metric.toNat ≤ 32766)
    (hs : bringUpFromTable (render rows) tun server strict (routeTable rows) = .ok s)
    (h : Run (Meeting Unrefused fun s a t => s.step a = some t) s as t) :
  (t.phase = .dropped → ∀ r, r ∈ t.table ↔
      r ∈ routeTable rows ∧ r ∉ ownRoutes s.pin tun (server :: asserted as)) ∧
    (t.Diverted (routeTable rows) → t.pin.route ∈ t.table ∨ t.moved = true)
  := by
  have hinv := inv_of_run (inv_bringUpFromTable hmetric hs) h
  rw [List.singleton_append] at hinv
  constructor
  · intro hphase r
    have hag := hinv.agrees
    rw [missing, current, hphase] at hag
    constructor
    · intro hr
      have hout : r ∉ ownRoutes s.pin tun (server :: asserted as) := by
        intro hown
        exact absurd (hag.held r hr hown) List.not_mem_nil
      exact ⟨hag.added r hr hout, hout⟩
    · rintro ⟨hr, hout⟩
      exact (hag.lost r hr hout).resolve_right List.not_mem_nil
  · exact hinv.pinned

/-- A default by a gateway. -/
def homeRows : List Row :=
  [Row.home]

/-- The state at the start of a bring-up over a default by a gateway. -/
def homeStart (strict : Bool) : ExitRoutes :=
  let pin := UplinkPin.viaGateway ⟨0xcb007109⟩ ⟨0x0a000001⟩ "eth0".toList
  ⟨routeTable homeRows, pin, "tun0".toList,
    if strict then some [⟨⟨0x0a000001⟩, "eth0".toList, 100⟩] else none,
    .base (baseChanges pin "tun0".toList true), false⟩

theorem bringUp_homeRows (strict : Bool) :
  bringUpFromTable (render homeRows) "tun0".toList ⟨0xcb007109⟩ strict (routeTable homeRows) =
    .ok (homeStart strict)
  := by
  have hpin : planServerPin (render homeRows) "tun0".toList ⟨0xcb007109⟩ =
      .ok (.viaGateway ⟨0xcb007109⟩ ⟨0x0a000001⟩ "eth0".toList) := by
    rw [planServerPin_render]
    decide
  have hdefaults : parseAllDefaults (render homeRows) "tun0".toList =
      [⟨⟨0x0a000001⟩, "eth0".toList, 100⟩] := by
    rw [parseAllDefaults, scanDefaults_render]
    decide
  unfold bringUpFromTable
  rw [hpin, hdefaults]
  cases strict <;> rfl

/-- A strict bring-up, an assertion for another address, and the drop. -/
def homeRun : List Action :=
  List.replicate 8 (.next false) ++ [.assertPin ⟨0xc6336404⟩, .next false, .next false, .drop] ++
    List.replicate 8 (.next false)

theorem exit_routes_undone_home :
  ∃ t, Run (Meeting Unrefused fun s a t => s.step a = some t) (homeStart true) homeRun t ∧
    t.phase = .dropped ∧
    (∀ r, r ∈ t.table ↔ r ∈ routeTable homeRows ∧
      r ∉ ownRoutes (homeStart true).pin "tun0".toList (⟨0xcb007109⟩ :: asserted homeRun)) ∧
    (t.Diverted (routeTable homeRows) → t.pin.route ∈ t.table ∨ t.moved = true)
  := by
  have hend : (execute Unrefused step (homeStart true) homeRun).map ExitRoutes.phase =
      some .dropped := by
    decide
  obtain ⟨t, ht, hphase⟩ := Option.map_eq_some_iff.mp hend
  have hmetric : ∀ r ∈ outside "tun0".toList homeRows, r.IsDefault → r.metric.toNat ≤ 32766 := by
    decide
  have hundone := exit_routes_undone homeRows "tun0".toList ⟨0xcb007109⟩ true (fun _ => hmetric)
    (bringUp_homeRows true) (run_of_execute ht)
  exact ⟨t, run_of_execute ht, hphase, hundone.1 hphase, hundone.2⟩

/-- The same default, with a half over the tunnel that is there already. -/
def leftoverRows : List Row :=
  homeRows ++ [Row.onLink ⟨0⟩ 1 "tun0".toList (by simp [Config.isWhitespace]) (by decide)]

theorem planServerPin_leftoverRows :
  planServerPin (render leftoverRows) "tun0".toList ⟨0xcb007109⟩ = .ok (homeStart false).pin
  := by
  rw [planServerPin_render]
  decide

/-- An assertion for another address leaves the halves without any pin on the way, and a bring-up
whose first request is refused takes a half away that it had not come to. -/
theorem halves_without_pin :
  (∃ t, Run (Meeting Unrefused fun s a t => s.step a = some t) (homeStart false)
      (List.replicate 4 (.next false) ++ [.assertPin ⟨0xc6336404⟩, .next false]) t ∧
    (∀ r ∈ halves "tun0".toList, r ∈ t.table ∧ r ∉ routeTable homeRows) ∧
    t.pin.addr = ⟨0xc6336404⟩ ∧ ∀ r ∈ t.table, r.plen ≠ 32) ∧
  (∃ s t, bringUpFromTable (render leftoverRows) "tun0".toList ⟨0xcb007109⟩ false
      (routeTable leftoverRows) = .ok s ∧
    Run (Meeting Unrefused fun s a t => s.step a = some t) s
      (.next true :: List.replicate 4 (.next false)) t ∧
    t.phase = .dropped ∧
    ∃ r ∈ halves "tun0".toList, r ∈ routeTable leftoverRows ∧ r ∉ t.table)
  := by
  constructor
  · have hend : (execute Unrefused step (homeStart false)
        (List.replicate 4 (.next false) ++ [.assertPin ⟨0xc6336404⟩, .next false])).any
        (fun t => (∀ r ∈ halves "tun0".toList, r ∈ t.table ∧ r ∉ routeTable homeRows) ∧
          t.pin.addr = ⟨0xc6336404⟩ ∧ ∀ r ∈ t.table, r.plen ≠ 32) = true := by
      decide
    obtain ⟨t, ht, hpoint⟩ := (Option.any_eq_true _ _).mp hend
    exact ⟨t, run_of_execute ht, of_decide_eq_true hpoint⟩
  · let start : ExitRoutes := { homeStart false with table := routeTable leftoverRows }
    have hstart : bringUpFromTable (render leftoverRows) "tun0".toList ⟨0xcb007109⟩ false
        (routeTable leftoverRows) = .ok start := by
      rw [bringUpFromTable, planServerPin_leftoverRows]
      rfl
    have hend : (execute Unrefused step start (.next true :: List.replicate 4 (.next false))).any
        (fun t => t.phase = .dropped ∧
          ∃ r ∈ halves "tun0".toList, r ∈ routeTable leftoverRows ∧ r ∉ t.table) = true := by
      decide
    obtain ⟨t, ht, hlast⟩ := (Option.any_eq_true _ _).mp hend
    exact ⟨start, t, hstart, run_of_execute ht, of_decide_eq_true hlast⟩

end ExitRoutes

end ZeroNat.Uplink
