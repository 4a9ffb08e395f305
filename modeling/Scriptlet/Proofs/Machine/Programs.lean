import Scriptlet.Proofs.Machine.Evaluation

/-! # Runs of well-typed programs

A program runs in three phases: its globals are evaluated and bound one after the other, its
functions are bound, and its main function is called. Each phase has a setting of its own. While
globals are evaluated only the built-in function can be called; afterwards every name and arity
means the last function that was declared so, whatever a caller was analyzed against.

* `run_resolves`: names and assignments mean what the analysis says.
* `run_keeps_types`: in a guarded program values inhabit the types of their declarations. -/

namespace Scriptlet

open Machine

/-! ### Tables of functions -/

/-- Whether a callable thing was declared with a name and a number of parameters. -/
def Callable.answers (k : Key) (n : Nat) (c : Callable) : Bool :=
  match c.signature? with
  | some g => g.name.isKnownAs k && g.arity = n
  | none => false

theorem Callable.answers_iff {k : Key} {n : Nat} {c : Callable} :
    c.answers k n = true ↔ ∃ g, c.signature? = some g ∧ g.name.key = .ok k ∧ g.arity = n := by
  unfold Callable.answers
  cases c.signature? with
  | none => simp
  | some g => simp [Name.isKnownAs_iff]

/-- The latest declaration of a name and arity is what they mean. -/
theorem Callable.find?_cons {c : Callable} {g : Signature} {key : Key} (hg : c.signature? = some g)
    (hkey : g.name.key = .ok key) (cs : List Callable) (k : Key) (n : Nat) :
    (c :: cs).find? (Callable.answers k n) =
      if k = key ∧ n = g.arity then some c else cs.find? (Callable.answers k n) := by
  have hanswers : c.answers k n = true ↔ k = key ∧ n = g.arity := by
    rw [Callable.answers_iff]
    constructor
    · rintro ⟨g', hg', hk, hn⟩
      cases hg.symm.trans hg'
      cases hkey.symm.trans hk
      exact ⟨rfl, hn.symm⟩
    · rintro ⟨rfl, rfl⟩
      exact ⟨g, hg, hkey, rfl⟩
  rw [List.find?_cons]
  split_ifs with h
  · rw [hanswers.mpr h]
  · rw [Bool.eq_false_iff.mpr fun htrue => h (hanswers.mp htrue)]

/-- The callable thing that a member of the functions declares. -/
def Func.callable? : Func → Option Callable
  | .decl d => some (.user ⟨d.name, d.params, d.body, d.signature⟩)
  | .hole _ => none

/-- What can be called in a program, the latest first. -/
def Program.callables (p : Program) : List Callable :=
  (Callable.print :: p.functions.filterMap Func.callable?).reverse

/-- The setting of a program while some of its globals and functions are in force. -/
def Program.setting (p : Program) (strict : Bool) (globals : List Variable) (cs : List Callable) :
    Setting :=
  ⟨strict, p.variables, globals, cs.filterMap Callable.signature?,
    fun k n => cs.find? (Callable.answers k n)⟩

/-- Whether a program declares no main function. -/
def Program.LacksMain (p : Program) : Prop :=
  ∀ g ∈ p.declaredFunctions, g.name = .text "main" → g.arity ≠ 0

variable {p : Program} {strict : Bool} {globals : List Variable} {cs : List Callable}

/-! ### Sound settings -/

/-- A setting is sound if everything that can be called is. -/
theorem Program.isSound_setting (hnodup : (p.variables.map Variable.origin).Nodup)
    (hplain : strict = true → ∀ v ∈ p.variables, v.type.IsPlain)
    (hcs : ∀ c ∈ cs, ∃ g, (p.setting strict globals cs).Implements c g ∧
      (strict = true → g.returns.IsPlain)) : (p.setting strict globals cs).IsSound := by
  refine ⟨hnodup, hplain, fun k n c hc => ?_⟩
  obtain ⟨g, hg, hreturns⟩ := hcs c (List.mem_of_find?_eq_some hc)
  obtain ⟨g', hg', -, harity⟩ := Callable.answers_iff.mp (List.find?_some hc)
  cases hg.signature?_eq.symm.trans hg'
  exact ⟨g, hg, harity, hreturns⟩

/-- The functions of a context can be called if they all have been defined. -/
theorem Program.covers_setting {Γ : Context}
    (hfuns : ∀ g ∈ Γ.funs, g ∈ cs.filterMap Callable.signature?)
    (hdistinct : strict = true →
      ((cs.filterMap Callable.signature?).map fun g => (g.name.key.toOption, g.arity)).Nodup) :
    (p.setting strict globals cs).Covers Γ := by
  intro k n g hg
  have hmem := hfuns g (List.mem_of_find?_eq_some hg)
  obtain ⟨c, hc, hcg⟩ := List.mem_filterMap.mp hmem
  have hknown := List.find?_some hg
  simp only [Bool.and_eq_true, Name.isKnownAs_iff, decide_eq_true_eq] at hknown
  have hanswers : c.answers k n = true := Callable.answers_iff.mpr ⟨g, hcg, hknown⟩
  obtain ⟨c', hc'⟩ := Option.isSome_iff_exists.mp (List.find?_isSome.mpr ⟨c, hc, hanswers⟩)
  refine ⟨hmem, c', hc', fun hstrict => ?_⟩
  obtain ⟨g', hg', hknown'⟩ := Callable.answers_iff.mp (List.find?_some hc')
  have hmem' := List.mem_filterMap.mpr ⟨c', List.mem_of_find?_eq_some hc', hg'⟩
  rw [hg', List.inj_on_of_nodup_map (hdistinct hstrict) hmem hmem' ?_]
  rw [hknown.1, hknown.2, hknown'.1, hknown'.2]

/-! ### Ends of runs -/

/-- Whether the invariant holds in some phase of a program. -/
def Program.Keeps (p : Program) (strict : Bool) (m : Machine) : Prop :=
  ∃ globals cs τ, (p.setting strict globals cs).Holds (m.world τ)

/-- Whether a setting is one in which a program evaluates expressions: that of its globals or that
of its functions. -/
structure Program.InForce (p : Program) (strict : Bool) (globals : List Variable)
    (cs : List Callable) : Prop where
  sound : (p.setting strict globals cs).IsSound
  callables : cs = [.print] ∨ cs = p.callables

/-- What is known of a run of a program that stops early. -/
structure Program.Stops (p : Program) (strict : Bool) (stop : Stop) (m : Machine) : Prop where
  holds : p.Keeps strict m
  paused : stop = .paused → ∃ place, m.place = some place ∧ place.Resolves p.variables m
  met : stop = .paused → ∃ globals cs τ place, p.InForce strict globals cs ∧
    (p.setting strict globals cs).Holds (m.world τ) ∧ m.place = some place ∧
      (p.setting strict globals cs).Meets m place
  failed : ∀ f, stop = .failed f → f.IsStatic → f = .name (.function "main" 0) ∧ p.LacksMain
  kind : strict = true → ∀ f, stop = .failed f → ¬ f.IsKind
  line : (∀ v ∈ p.variables, v.name.IsLine) → ∀ f, stop = .failed f → f.IsLine

theorem Program.stops_of_allows {m : Machine} {τ : List Ty} {f : Failure}
    (hw : (p.setting strict globals cs).Holds (m.world τ))
    (hf : (p.setting strict globals cs).Allows f) : p.Stops strict (.failed f) m := by
  refine ⟨⟨globals, cs, τ, hw⟩, nofun, nofun, fun g hg hstatic => ?_, fun hstrict g hg => ?_,
    fun hvars g hg => ?_⟩
  · cases hg
    exact absurd hstatic hf.static
  · cases hg
    exact hf.kind hstrict
  · cases hg
    exact hf.line hvars

theorem Program.InForce.stops {stop : Stop} {m : Machine} (hforce : p.InForce strict globals cs)
    (h : (p.setting strict globals cs).Exit stop m) : p.Stops strict stop m := by
  obtain ⟨τ, hw, hstop⟩ := h
  cases stop with
  | failed f => exact Program.stops_of_allows hw hstop
  | paused =>
    obtain ⟨place, hplace, hmeets⟩ := hstop
    exact ⟨⟨globals, cs, τ, hw⟩, fun _ => ⟨place, hplace, hmeets.resolves⟩,
      fun _ => ⟨globals, cs, τ, place, hforce, hw, hplace, hmeets⟩, nofun, fun _ => nofun,
      fun _ => nofun⟩

theorem Program.InForce.leads_text {m : Machine} {τ : List Ty} {v : Value}
    {Q : Text → Machine → Prop} (hforce : p.InForce strict globals cs)
    (hw : (p.setting strict globals cs).Holds (m.world τ)) (hv : m.heap.Owns v)
    (hQ : ∀ line, Q line m) : Leads (p.Stops strict) (text v) m Q :=
  (Setting.leads_text hw hv hQ).weaken fun _ _ => hforce.stops

theorem Program.InForce.leads_tracedText {m : Machine} {τ : List Ty} {v : Value}
    {Q : Text → Machine → Prop} (hforce : p.InForce strict globals cs)
    (hw : (p.setting strict globals cs).Holds (m.world τ)) (hv : m.heap.Owns v)
    (hQ : ∀ line, Q line m) : Leads (p.Stops strict) (tracedText v) m Q :=
  (Setting.leads_tracedText hw hv hQ).weaken fun _ _ => hforce.stops

theorem Program.leads_say {tracer : Tracer} {line : Text} {m : Machine} {τ : List Ty}
    {Q : Unit → Machine → Prop} (hw : (p.setting strict globals cs).Holds (m.world τ))
    (hQ : ∀ lines, Q () { m with trace := lines }) :
    Leads (p.Stops strict) (say tracer line) m Q :=
  Machine.leads_say (fun flaw => Program.stops_of_allows hw (Setting.allows_unwritable flaw))
    fun _ => hQ _

/-! ### Globals -/

section Globals

variable {Γ Γ' : Context} {tracer : Tracer} {fuel : Nat} {m : Machine} {τ : List Ty}
  {d : GlobalDecl}

/-- The setting in which the globals of a context are in force. -/
abbrev Program.early (p : Program) (strict : Bool) (Γ : Context) : Setting :=
  p.setting strict Γ.vars [.print]

theorem Program.isSound_early (hnodup : (p.variables.map Variable.origin).Nodup)
    (hplain : strict = true → ∀ v ∈ p.variables, v.type.IsPlain) :
    (p.early strict Γ).IsSound := by
  refine Program.isSound_setting hnodup hplain fun c hc => ?_
  obtain rfl := List.mem_singleton.mp hc
  exact ⟨_, .print, fun _ => trivial⟩

theorem Program.inForce_early (hW : (p.early strict Γ).IsSound) :
    p.InForce strict Γ'.vars [.print] :=
  ⟨Program.isSound_early hW.nodup hW.plain, Or.inl rfl⟩

theorem Program.covers_early (hfuns : Γ.funs = [Analyzer.printSignature]) :
    (p.early strict Γ).Covers Γ := by
  refine Program.covers_setting (fun g hg => ?_) fun _ => by simp [Callable.signature?]
  rwa [hfuns] at hg

/-- The initial value of a global fits its type. -/
theorem leads_initial {W : Setting} {t : Ty} {e : Expr} {s : Nat} (hW : W.IsSound)
    (hd : d.Declares Γ t) (he : d.value = some e) (hw : W.Holds (m.world τ))
    (hΓ : W.Shows m.scopes s Γ) :
    Leads W.Exit (eval tracer fuel s e) m
      (W.Gives (s + 1) (m.world τ) fun w v => W.Fits w t v) := by
  cases hd with
  | written _ _ hvalue => cases hvalue.symm.trans he
  | inferred _ hvalue he' =>
    cases hvalue.symm.trans he
    exact (W.runs hW tracer fuel).eval he' hw hΓ
  | checked _ _ hvalue _ he' hts =>
    cases hvalue.symm.trans he
    refine ((W.runs hW tracer fuel).eval he' hw hΓ).mono fun v m₁ hv => ?_
    obtain ⟨τ₁, h₁, hv⟩ := hv
    exact ⟨τ₁, h₁, hv.assignable h₁.holds hts⟩
  | items _ _ _ hvalue hes hts =>
    cases hvalue.symm.trans he
    have hplace {es : List Expr} {slot : Option Ty} : W.Meets m (.expr s (.list es slot)) :=
      ⟨fun x _ hx => (by cases hx), fun _ _ _ _ hcall => (by cases hcall)⟩
    cases fuel with
    | zero =>
      rw [eval]
      exact Setting.leads_pause hw hplace
    | succ fuel =>
      rw [eval, leads_bind]
      refine Setting.leads_tick hw hplace fun _ => ?_
      exact Setting.leads_items (W.runs hW tracer fuel) hes hts hw hΓ

/-- What follows the initial value of a global. -/
theorem leads_globalDeclaration {x : Variable} {k : Key} {v : Value}
    (hW : (p.early strict Γ).IsSound) (hx : x ∈ p.variables)
    (hk : d.name.key = .ok k) (hname : x.name = d.name) (hmut : x.mutable = d.mutable)
    (hslot : d.declared = some x) (hw : (p.early strict Γ).Holds (m.world τ))
    (hv : (p.early strict Γ).Fits (m.world τ) x.type v) :
    Leads (p.Stops strict)
      (do
        define root d.name ⟨d.mutable, v, d.declared.map (·.origin)⟩
        if 2 ≤ tracer.level then
          say tracer (.plain "global " ++ d.name.toText ++ .plain " = " ++ (← tracedText v))) m
      fun _ m' => ∃ τ', (p.early strict (Γ.declare x)).Holds (m'.world τ') := by
  rw [leads_bind, hslot, leads_define (Name.label_of_key hk)]
  have hw' : (p.early strict (Γ.declare x)).Holds
      ⟨m.scopes.defineVariable root ⟨d.name, k, hk⟩ (some ⟨d.mutable, v, some x.origin⟩), m.heap,
        τ⟩ :=
    hw.defineGlobal rfl rfl rfl rfl hx hname.symm ⟨rfl, hmut.symm⟩ hv
  split_ifs
  · rw [leads_bind]
    have hforce : p.InForce strict (Γ.declare x).vars [.print] := Program.inForce_early hW
    exact hforce.leads_tracedText hw' hv.owns fun line => Program.leads_say hw' fun _ => ⟨τ, hw'⟩
  · exact ⟨τ, hw'⟩

/-- **A global is bound to a value of its type.** -/
theorem leads_defineGlobal (hW : (p.early strict Γ).IsSound) (hd : d.Typed Γ Γ')
    (hfuns : Γ.funs = [Analyzer.printSignature]) (hmem : ∀ x, d.declared = some x → x ∈ p.variables)
    (hinitialized : strict = true → (Global.decl d).isInitialized = true)
    (hw : (p.early strict Γ).Holds (m.world τ)) :
    Leads (p.Stops strict) (defineGlobal tracer fuel (.decl d)) m
      fun _ m' => ∃ τ', (p.early strict Γ').Holds (m'.world τ') := by
  obtain @⟨t, k, x, ht, hk, hx, hslot⟩ := hd
  have hmem := hmem x hslot
  obtain ⟨hname, hmut, htype⟩ : x.name = d.name ∧ x.mutable = d.mutable ∧ x.type = t := by
    subst hx
    exact ⟨rfl, rfl, rfl⟩
  rw [← htype] at ht
  have hΓ := hw.shows_root rfl (Program.covers_early hfuns)
  rw [defineGlobal]
  dsimp only
  cases hvalue : d.value with
  | none =>
    refine leads_globalDeclaration hW hmem hk hname hmut hslot hw
      (Setting.fits_nil fun hstrict => ?_)
    have hinitialized := hinitialized hstrict
    rwa [Global.isInitialized, hvalue, hslot] at hinitialized
  | some e =>
    dsimp only
    rw [leads_bind]
    have hforce : p.InForce strict Γ.vars [.print] := Program.inForce_early hW
    refine ((leads_initial hW ht hvalue hw hΓ).weaken fun _ _ => hforce.stops).mono
      fun v m₁ hv => ?_
    obtain ⟨τ₁, h₁, hv⟩ := hv
    exact leads_globalDeclaration hW hmem hk hname hmut hslot h₁.holds hv

theorem leads_globals (hnodup : (p.variables.map Variable.origin).Nodup)
    (hplain : strict = true → ∀ v ∈ p.variables, v.type.IsPlain) {gs : List Global}
    (hgs : Global.ListTyped Γ gs Γ') (hfuns : Γ.funs = [Analyzer.printSignature])
    (hmem : ∀ x ∈ gs.filterMap Global.declared?, x ∈ p.variables)
    (hinitialized : strict = true → ∀ g ∈ gs, g.isInitialized = true)
    (hw : (p.early strict Γ).Holds (m.world τ)) :
    Leads (p.Stops strict) (gs.forM (defineGlobal tracer fuel)) m
      fun _ m' => ∃ τ', (p.early strict Γ').Holds (m'.world τ') := by
  induction hgs generalizing m τ with
  | nil => exact ⟨τ, hw⟩
  | @cons Γ Γ₁ Γ₂ d gs hd hgs ih =>
    have hmemd (x : Variable) (hx : d.declared = some x) : x ∈ p.variables :=
      hmem x (List.mem_filterMap.mpr ⟨_, List.mem_cons_self, hx⟩)
    have hinitializedd (hstrict : strict = true) := hinitialized hstrict _ List.mem_cons_self
    have hsound := Program.isSound_early (Γ := Γ) hnodup hplain
    rw [leads_forM_cons]
    refine (leads_defineGlobal hsound hd hfuns hmemd hinitializedd hw).mono fun _ m₁ hw₁ => ?_
    obtain ⟨τ₁, hw₁⟩ := hw₁
    obtain ⟨-, -, -, -⟩ := hd
    refine ih hfuns (fun x hx => ?_) (fun hstrict g hg => ?_) hw₁
    · obtain ⟨g, hg, hx⟩ := List.mem_filterMap.mp hx
      exact hmem x (List.mem_filterMap.mpr ⟨g, List.mem_cons_of_mem _ hg, hx⟩)
    · exact hinitialized hstrict g (List.mem_cons_of_mem _ hg)

end Globals

/-! ### Functions -/

section Functions

variable {Γ Γ' : Context} {tracer : Tracer} {m : Machine} {τ : List Ty} {d : FuncDecl}

theorem arity_of_typed {ps : List Param} {ts : List Ty} (h : List.Forall₂ Param.HasType ps ts) :
    arity ps = .ok ps.length := by
  unfold arity
  split
  · cases h with
    | cons hp _ => cases hp
  · rfl

/-- **A function hides the earlier ones of its name and arity.** -/
theorem leads_defineFunc (hd : d.Typed Γ Γ')
    (hw : (p.setting strict globals cs).Holds (m.world τ)) :
    Leads (p.Stops strict) (defineFunc tracer (.decl d)) m fun _ m' =>
      (p.setting strict globals (.user ⟨d.name, d.params, d.body, d.signature⟩ :: cs)).Holds
        (m'.world τ) := by
  obtain @⟨ps, r, k, f, Γ₁, hps, hr, hk, hf, hslot, hkeys, hbody, hret⟩ := hd
  obtain ⟨hkey, harity⟩ : f.name.key = .ok k ∧ f.arity = d.params.length := by
    subst hf
    exact ⟨hk, hps.length_eq.symm⟩
  have hcallable : (Callable.user ⟨d.name, d.params, d.body, d.signature⟩).signature? = some f :=
    hslot
  rw [defineFunc, leads_bind, arity_of_typed hps, leads_lift_ok, leads_bind,
    leads_defineFunction (Name.label_of_key hk)]
  have hw' : (p.setting strict globals
      (.user ⟨d.name, d.params, d.body, d.signature⟩ :: cs)).Holds
      ⟨m.scopes.defineFunction root ⟨d.name, k, hk⟩ d.params.length
        (some (.user ⟨d.name, d.params, d.body, d.signature⟩)), m.heap, τ⟩ := by
    refine hw.defineFunction rfl rfl rfl fun l n => ?_
    rw [← harity]
    exact Callable.find?_cons hcallable hkey cs l n
  split_ifs
  · exact Program.leads_say hw' fun _ => hw'
  · exact hw'

theorem leads_functions {fs : List Func} (hfs : Func.ListTyped Γ fs Γ')
    (hw : (p.setting strict globals cs).Holds (m.world τ)) :
    Leads (p.Stops strict) (fs.forM (defineFunc tracer)) m fun _ m' =>
      (p.setting strict globals ((fs.filterMap Func.callable?).reverse ++ cs)).Holds
        (m'.world τ) := by
  induction hfs generalizing cs m with
  | nil => exact hw
  | cons hd hfs ih =>
    rw [leads_forM_cons, List.filterMap_cons_some (by rfl), List.reverse_cons, List.append_assoc]
    exact (leads_defineFunc hd hw).mono fun _ m₁ hw₁ => ih hw₁

/-! ### The setting of the main function -/

theorem Program.signatures_callables (p : Program) :
    p.callables.filterMap Callable.signature? =
      (Analyzer.printSignature :: p.declaredFunctions).reverse := by
  rw [Program.callables, List.filterMap_reverse, List.filterMap_cons_some (by rfl),
    List.filterMap_filterMap, Program.declaredFunctions]
  congr 2
  refine List.filterMap_congr fun f _ => ?_
  cases f <;> rfl

/-- **Each function of a program does what it was declared to do.** -/
theorem Program.implements_of_mem {Γ₁ Γ₂ : Context} (hd : Func.decl d ∈ p.functions)
    (htyped : d.Typed Γ₁ Γ₂) (hvars : Γ₁.vars = globals)
    (hfuns : ∀ g ∈ Γ₂.funs, g ∈ p.callables.filterMap Callable.signature?)
    (hguard : strict = true → p.IsGuarded) :
    ∃ g, (p.setting strict globals p.callables).Implements
      (.user ⟨d.name, d.params, d.body, d.signature⟩) g ∧ (strict = true → g.returns.IsPlain) := by
  obtain @⟨ps, r, k, f, Γ₃, hps, hr, hk, hf, hslot, hkeys, hbody, hret⟩ := htyped
  have hguardd (hstrict : strict = true) :=
    (hguard hstrict).functions d (Program.mem_funcDecls.mpr hd)
  have hplain (hstrict : strict = true) := Program.not_mem_typeNames (hguard hstrict).plain hd
  have hmem {v : Variable} (hv : v ∈ d.variables) := p.mem_variables_of_decl hd hv
  have hdistinct (hstrict : strict = true) : ((p.callables.filterMap Callable.signature?).map
      fun g => (g.name.key.toOption, g.arity)).Nodup := by
    rw [p.signatures_callables, List.map_reverse, List.nodup_reverse]
    exact (hguard hstrict).distinct
  have hparams : d.parameters = paramVariables f.declaration 0 d.params f.params := by
    rw [FuncDecl.parameters, hslot]
  obtain ⟨hps', hreturns, hdeclaration⟩ :
      f.params = ps ∧ f.returns = r ∧ f.declaration = Γ₁.next := by
    subst hf
    exact ⟨rfl, rfl, rfl⟩
  have hparams' : paramVariables Γ₁.next 0 d.params ps = d.parameters := by
    rw [hparams, hps', hdeclaration]
  rw [hparams'] at hkeys hbody
  have hvars : (Γ₁.declareFunction f).vars = globals := hvars
  refine ⟨f, .user hslot (hps' ▸ hps) hparams (fun v hv => ?_) hkeys hvars ?_ hbody
    (fun x hx => ⟨fun v hv => ?_, fun hstrict => (hguardd hstrict).initialized x hx,
      fun hstrict => (hguardd hstrict).returned f hslot x hx⟩)
    (fun hstrict => (hguardd hstrict).ends f hslot), fun hstrict => ?_⟩
  · exact hmem (List.mem_append_left _ hv)
  · exact Program.covers_setting hfuns hdistinct
  · exact hmem (List.mem_append_right _ (List.mem_filterMap.mpr ⟨x, hx, hv⟩))
  · exact hreturns ▸ hr.isPlain (FuncDecl.not_mem_typeNames (hplain hstrict)).2.1

/-- **The setting in which the main function runs is sound.** -/
theorem Program.Typed.isSound (h : p.Typed Γ) (hguard : strict = true → p.IsGuarded) :
    (p.setting strict p.declaredGlobals.reverse p.callables).IsSound := by
  have hplain (hstrict : strict = true) := h.isPlain_variables (hguard hstrict).plain
  refine Program.isSound_setting h.nodup_origins hplain fun c hc => ?_
  rcases List.mem_cons.mp (List.mem_reverse.mp hc) with rfl | hc
  · exact ⟨_, .print, fun _ => trivial⟩
  · obtain ⟨f, hf, hcallable⟩ := List.mem_filterMap.mp hc
    cases f with
    | hole _ => cases hcallable
    | decl d =>
      cases hcallable
      have hfuns := h.context.2
      obtain ⟨hgs, hfs⟩ := h
      obtain ⟨Γ₁, Γ₂, hd, hvars, hfuns₂⟩ := hfs.typed_of_mem hf
      refine Program.implements_of_mem hf hd ?_ (fun g hg => ?_) hguard
      · rw [hvars, hgs.context.1]
        exact List.append_nil _
      · rw [p.signatures_callables, ← hfuns]
        exact hfuns₂ g hg

end Functions

/-! ### Whole runs -/

section Runs

variable {Γ : Context} {tracer : Tracer} {fuel : Nat} {m : Machine} {τ : List Ty}

/-- The invariant of a machine on which nothing has run. -/
theorem Program.holds_fresh (p : Program) (strict : Bool) :
    (p.early strict .start).Holds (Machine.fresh.world []) := by
  have hscope {s : Nat} {sc : Scope Binding Callable}
      (h : (Forest.addRoot {} : Forest Binding Callable).scopes[s]? = some sc) :
      s = root ∧ sc = {} := by
    have hs : s < 1 := (Array.getElem?_eq_some_iff.mp h).1
    obtain rfl : s = 0 := by omega
    cases h
    exact ⟨rfl, rfl⟩
  have hempty : (p.setting strict [] []).Holds ⟨Forest.addRoot {}, {}, []⟩ := by
    have hglobals : (p.setting strict [] []).Shows (Forest.addRoot {}) root ⟨[], [], 0⟩ := by
      refine ⟨Nat.one_pos, fun k x hx => ?_, Setting.covers_nil _ _ _⟩
      cases hx
    refine ⟨fun s sc hsc t ht => ?_, fun t ht => ?_, fun t ht k n => ?_, fun k n => rfl, hglobals,
      fun t k o ho => ?_, fun a v hv => ?_, fun _ => .empty⟩
    · obtain ⟨-, rfl⟩ := hscope hsc
      cases ht
    · obtain rfl : t = root := Nat.lt_one_iff.mp ht
      exact List.mem_singleton.mpr rfl
    · exact Forest.ownFunction?_of_le (Nat.one_le_iff_ne_zero.mpr ht) k n
    · obtain ⟨sc, hsc, ho⟩ := Option.bind_eq_some_iff.mp ho
      obtain ⟨-, rfl⟩ := hscope hsc
      cases ho
    · simp [Heap.items] at hv
  refine hempty.defineFunction rfl rfl rfl fun k n => ?_
  exact Callable.find?_cons (c := .print) rfl rfl [] k n

theorem leads_main (hW : (p.setting strict globals p.callables).IsSound)
    (hw : (p.setting strict globals p.callables).Holds (m.world τ)) :
    Leads (p.Stops strict)
      (do
        let main ← lift ((← get).scopes.lookupFunction root (.text "main") 0)
        let v ← call tracer fuel main []
        let shown ← text v
        if 1 ≤ tracer.level then say tracer (.plain "main returned " ++ shown)
        return v) m
      fun _ m' => p.Keeps strict m' := by
  rw [leads_bind, leads_get, leads_bind]
  have hfind := hw.findFunction? hw.globals.lt (.text "main") 0
  cases hmain : (p.setting strict globals p.callables).table (.text "main") 0 with
  | none =>
    have hlookup : m.scopes.lookupFunction root (.text "main") 0 =
        .error (.name (.function "main" 0)) := by
      have hnone : m.scopes.findFunction? root (.text "main") 0 = none := hfind.trans hmain
      rw [Forest.lookupFunction, Name.label_text, ok_bind, Label.text, hnone]
      rfl
    rw [hlookup, leads_lift_error]
    refine ⟨⟨_, _, τ, hw⟩, (fun h => by cases h), (fun h => by cases h), fun f hf _ => ?_,
      fun _ f hf => ?_, fun _ f hf => ?_⟩
    · cases hf
      refine ⟨rfl, fun g hg hname harity => ?_⟩
      have hmem : g ∈ p.callables.filterMap Callable.signature? := by
        rw [p.signatures_callables]
        exact List.mem_reverse.mpr (List.mem_cons_of_mem _ hg)
      obtain ⟨c, hc, hcg⟩ := List.mem_filterMap.mp hmem
      refine List.find?_eq_none.mp hmain c hc (Callable.answers_iff.mpr ⟨g, hcg, ?_, harity⟩)
      rw [hname]
      rfl
    · cases hf
      exact id
    · cases hf
      exact List.forall_mem_singleton.mpr (by simp)
  | some c =>
    have hlookup : m.scopes.lookupFunction root (.text "main") 0 = .ok c :=
      Forest.lookupFunction_eq_ok_iff.mpr ⟨_, rfl, hfind.trans hmain⟩
    rw [hlookup, leads_lift_ok, leads_bind]
    obtain ⟨g, hg, hlength, -⟩ := hW.table _ _ c hmain
    have hvs : List.Forall₂ ((p.setting strict globals p.callables).Fits (m.world τ))
        g.params [] := by
      rw [List.length_eq_zero_iff.mp hlength]
      exact .nil
    have hcall := (Setting.runs hW tracer fuel).call hg hvs hw
    have hforce : p.InForce strict globals p.callables := ⟨hW, Or.inr rfl⟩
    refine (hcall.weaken fun _ _ => hforce.stops).mono fun v m₁ hv => ?_
    obtain ⟨τ₁, h₁, hv⟩ := hv
    rw [leads_bind]
    refine hforce.leads_text h₁.holds hv.owns fun line => ?_
    split_ifs
    · rw [leads_bind]
      exact Program.leads_say h₁.holds fun _ => ⟨_, _, τ₁, h₁.holds⟩
    · exact ⟨_, _, τ₁, h₁.holds⟩

/-- **Every run of a well-typed program keeps the invariant**, with the types of values if the
program is guarded. -/
theorem Program.Typed.leads_run (h : p.Typed Γ) (hguard : strict = true → p.IsGuarded)
    (tracer : Tracer) (fuel steps : Nat) :
    Leads (p.Stops strict) (run tracer fuel p) { Machine.fresh with steps := steps }
      fun _ m => p.Keeps strict m := by
  have hW := h.isSound hguard
  have hplain (hstrict : strict = true) := h.isPlain_variables (hguard hstrict).plain
  have hnodup := h.nodup_origins
  obtain ⟨hgs, hfs⟩ := h
  have hfresh : (p.early strict .start).Holds (({ Machine.fresh with steps := steps }).world []) :=
    p.holds_fresh strict
  have hmem (x : Variable) (hx : x ∈ p.declaredGlobals) : x ∈ p.variables :=
    List.mem_append_left _ hx
  rw [run, leads_bind, load, leads_bind]
  refine (leads_globals hnodup hplain hgs rfl hmem (fun hstrict => (hguard hstrict).initialized)
    hfresh).mono fun _ m₁ hw₁ => ?_
  obtain ⟨τ₁, hw₁⟩ := hw₁
  refine (leads_functions hfs hw₁).mono fun _ m₂ hw₂ => ?_
  rw [← List.reverse_cons, hgs.context.1, Context.start, List.append_nil] at hw₂
  exact leads_main hW hw₂

/-- What is known of a run of any length: however it ends, the invariant holds in its last state. -/
theorem Program.Typed.execute_run (h : p.Typed Γ) (hguard : strict = true → p.IsGuarded)
    (tracer : Tracer) (steps : Nat) :
    let outcome := execute Machine.fresh steps fun fuel => run tracer fuel p
    p.Keeps strict outcome.2 ∧ ∀ stop, outcome.1 = .error stop → p.Stops strict stop outcome.2 := by
  intro outcome
  have hrun := h.leads_run hguard tracer steps steps
  have houtcome : (run tracer steps p).run { Machine.fresh with steps := steps } = outcome := rfl
  rw [Leads, houtcome] at hrun
  clear_value outcome
  obtain ⟨r, m⟩ := outcome
  cases r with
  | ok v =>
    refine ⟨hrun, fun stop hstop => ?_⟩
    cases hstop
  | error stop =>
    refine ⟨hrun.holds, fun stop' hstop => ?_⟩
    cases hstop
    exact hrun

/-- What is known of a run of an accepted text that stops early. -/
theorem stops_of_accepted {text : String} {q : Program} {a : Analyzer} {checker : Tracer}
    (hp : readProgram text = .ok p)
    (hq : (Analysis.program checker p).run Analyzer.fresh = ((q, .ok ()), a)) {tracer : Tracer}
    {steps : Nat} {stop : Stop}
    (hstop : (execute Machine.fresh steps fun fuel => run tracer fuel q).1 = .error stop) :
    ∃ Γ, q.Typed Γ ∧
      q.Stops false stop (execute Machine.fresh steps fun fuel => run tracer fuel q).2 := by
  obtain ⟨Γ, hΓ, -, -⟩ := Analysis.program_sound (isWritten_of_readProgram hp) hq
  have hloose : false = true → q.IsGuarded := fun h => by cases h
  exact ⟨Γ, hΓ, (hΓ.execute_run hloose tracer steps).2 stop hstop⟩

/-- What a run of an accepted text fails with is told in one line. -/
theorem isLine_of_accepted {text : String} {q : Program} {a : Analyzer} {checker : Tracer}
    (hp : readProgram text = .ok p)
    (hq : (Analysis.program checker p).run Analyzer.fresh = ((q, .ok ()), a)) {tracer : Tracer}
    {steps : Nat} {f : Failure}
    (hf : (execute Machine.fresh steps fun fuel => run tracer fuel q).1 = .error (.failed f)) :
    f.IsLine := by
  obtain ⟨Γ, hΓ, herase, -⟩ := Analysis.program_sound (isWritten_of_readProgram hp) hq
  have hloose : false = true → q.IsGuarded := fun h => by cases h
  have hnames : ∀ v ∈ q.variables, v.name.IsLine :=
    hΓ.names (herase ▸ isTreeOf_of_readProgram hp)
  exact ((hΓ.execute_run hloose tracer steps).2 _ hf).line hnames f rfl

end Runs

/-! ### The results -/

/-- **Names of accepted programs mean what the analysis says.** In every run, of any length and
however it ends, every binding was created by one declaration of the program; a name that is about
to be looked up or assigned to means a binding of the variable in its slot; and the run does not
fail for a name, an assignment, a call or a tree, unless there is no main function. -/
theorem run_resolves {text : String} {p q : Program} {a : Analyzer} {checker : Tracer}
    (hp : readProgram text = .ok p)
    (hq : (Analysis.program checker p).run Analyzer.fresh = ((q, .ok ()), a)) (tracer : Tracer)
    (steps : Nat) :
    let outcome := execute Machine.fresh steps fun fuel => run tracer fuel q
    let m := outcome.2
    (q.variables.map Variable.origin).Nodup ∧
      (∀ s k o, m.scopes.ownVariable? k s = some o →
        ∃ b, o = some b ∧ ∃ v ∈ q.variables, b.IsOf v) ∧
      (outcome.1 = .error .paused → ∃ place, m.place = some place ∧ place.Resolves q.variables m) ∧
      ∀ f, outcome.1 = .error (.failed f) → f.IsStatic →
        f = .name (.function "main" 0) ∧ q.LacksMain := by
  intro outcome m
  obtain ⟨Γ, hΓ, -, -⟩ := Analysis.program_sound (isWritten_of_readProgram hp) hq
  have hloose : false = true → q.IsGuarded := fun h => by cases h
  obtain ⟨⟨globals, cs, τ, hw⟩, hstop⟩ := hΓ.execute_run hloose tracer steps
  refine ⟨hΓ.nodup_origins, fun s k o ho => ?_, fun hpaused => ?_, fun f hf => ?_⟩
  · obtain ⟨b, rfl, v, hv, hb, -⟩ := hw.bindings s k o ho
    exact ⟨b, rfl, v, hv, hb⟩
  · exact (hstop .paused hpaused).paused rfl
  · exact (hstop (.failed f) hf).failed f rfl

/-- An assignment to a local variable that hides a global one. -/
theorem run_resolves_local :
    ∃ p q a, readProgram "VAR n = 0; FUN main() DO LET n = 1; n = 2; END" = .ok p ∧
      (Analysis.program 0 p).run Analyzer.fresh = ((q, .ok ()), a) ∧
      ∃ place, (execute Machine.fresh 8 fun fuel => run 0 fuel q).2.place = some place ∧
        place.Resolves q.variables (execute Machine.fresh 8 fun fuel => run 0 fuel q).2 :=
  ⟨_, _, _, by cbv, Analysis.program_eq_of_ok (by decide +kernel), (@run_resolves
    "VAR n = 0; FUN main() DO LET n = 1; n = 2; END" _ _ _ 0 (by cbv)
    (Analysis.program_eq_of_ok (by decide +kernel)) 0 8).2.2.1 (by decide +kernel)⟩

/-- Whether all values of a machine are of their types, given the types of the elements of all lists
by address: those of bindings of the types of their declarations, and items of the types of the
elements. -/
structure Machine.IsTyped (vars : List Variable) (τ : List Ty) (m : Machine) : Prop where
  bindings : ∀ s k o, m.scopes.ownVariable? k s = some o → ∃ b, o = some b ∧ ∃ v ∈ vars,
    b.IsOf v ∧ v.type.Inhabits m.heap b.value ∧
      ∀ t i, v.type = .list t → b.value = .list i → τ[i]? = some t
  length : τ.length = m.heap.cells.size
  items : ∀ i t, τ[i]? = some t → ∀ x ∈ m.heap.items i, t.Inhabits m.heap x

/-- **Values of guarded programs are of their types.** In every run of an accepted and guarded
program, of any length and however it ends, every binding holds a value of the type of the
declaration that created it, every list has a type of elements that all its items inhabit, and the
run does not fail for the kind of a value. -/
theorem run_keeps_types {text : String} {p q : Program} {a : Analyzer} {checker : Tracer}
    (hp : readProgram text = .ok p)
    (hq : (Analysis.program checker p).run Analyzer.fresh = ((q, .ok ()), a))
    (hguard : q.IsGuarded) (tracer : Tracer) (steps : Nat) :
    let outcome := execute Machine.fresh steps fun fuel => run tracer fuel q
    let m := outcome.2
    (q.variables.map Variable.origin).Nodup ∧ (∃ τ, m.IsTyped q.variables τ) ∧
      ∀ f, outcome.1 = .error (.failed f) → ¬ f.IsKind := by
  intro outcome m
  obtain ⟨Γ, hΓ, -, -⟩ := Analysis.program_sound (isWritten_of_readProgram hp) hq
  obtain ⟨⟨globals, cs, τ, hw⟩, hstop⟩ := hΓ.execute_run (fun _ => hguard) tracer steps
  have htyped : m.heap.Typed τ := hw.typed rfl
  refine ⟨hΓ.nodup_origins, ⟨τ, fun s k o ho => ?_, htyped.length, fun i t hi x hx => ?_⟩,
    fun f hf => (hstop (.failed f) hf).kind rfl f rfl⟩
  · obtain ⟨b, rfl, v, hv, hb, hfits⟩ := hw.bindings s k o ho
    have hfits := hfits.fits rfl
    refine ⟨b, rfl, v, hv, hb, Ty.inhabits_of_fits htyped hfits, fun t i ht hi => ?_⟩
    rw [ht, hi] at hfits
    obtain ⟨i', hvalue, hi'⟩ := hfits
    cases hvalue
    exact hi'
  · exact Ty.inhabits_of_fits htyped (htyped.items i t hi x hx)

/-- A guarded program that changes an item of a list. -/
theorem run_keeps_types_item :
    ∃ p q a, readProgram
        "LIST xs: Integer = [1, 2]; FUN main(): Integer DO xs[0] = xs[1]; RETURN xs[0]; END" =
        .ok p ∧
      (Analysis.program 0 p).run Analyzer.fresh = ((q, .ok ()), a) ∧ q.IsGuarded ∧
      ∃ τ, (execute Machine.fresh 20 fun fuel => run 0 fuel q).2.IsTyped q.variables τ :=
  ⟨_, _, _, by cbv, Analysis.program_eq_of_ok (by decide +kernel), by decide +kernel,
    (@run_keeps_types
      "LIST xs: Integer = [1, 2]; FUN main(): Integer DO xs[0] = xs[1]; RETURN xs[0]; END" _ _ _ 0
      (by cbv) (Analysis.program_eq_of_ok (by decide +kernel)) (by decide +kernel) 0 20).2.1⟩

end Scriptlet
