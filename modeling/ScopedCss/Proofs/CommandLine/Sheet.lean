import ScopedCss.CommandLine.Run
import ScopedCss.Proofs.Compiler.Trees
import ScopedCss.Proofs.Registry.Sheet

/-!
# The sheet command

The sheet command compiles files, registers them and prints what the sheet then shows. Nothing of
this has to be followed step by step to know the outcome. If everything can be loaded, the rules that
come to the sheet are those of the first file of each class, then those of the blocks among the global
entries (`offeredRules`), and the report says which of them have the right shape. The command fails if
something cannot be loaded, or if a strict registry is offered a rule of the wrong shape.
-/

namespace ScopedCss

theorem ClassName.text_injective : Function.Injective ClassName.text := by
  rintro ⟨t, ht⟩ ⟨t', ht'⟩ h
  cases h
  rfl

/-! ## The first of each class -/

namespace Fragment

/-- Fragments of a class that came before make no difference. -/
theorem firstOfEach_append_cons {before : List Fragment} {f : Fragment}
    (h : f.className ∈ before.map Fragment.className) (after : List Fragment) :
    firstOfEach (before ++ f :: after) = firstOfEach (before ++ after) := by
  induction before with
  | nil => cases h
  | cons g before ih =>
    rw [List.cons_append, List.cons_append, firstOfEach, firstOfEach]
    by_cases hg : f.className = g.className
    · have hdrop : (before ++ f :: after).filter (fun e => decide (e.className ≠ g.className)) =
          (before ++ after).filter fun e => decide (e.className ≠ g.className) := by
        simp [hg]
      rw [← firstOfEach_filter fun n => decide (n ≠ g.className),
        ← firstOfEach_filter fun n => decide (n ≠ g.className), hdrop]
    · rw [ih ((List.mem_cons.1 h).resolve_left hg)]

/-- The first fragments of each class have all the classes. -/
theorem mem_className_firstOfEach {fs : List Fragment} {n : ClassName} :
    n ∈ (firstOfEach fs).map Fragment.className ↔ n ∈ fs.map Fragment.className := by
  induction fs with
  | nil => exact Iff.rfl
  | cons f fs ih =>
    have hfilter : n ∈ ((firstOfEach fs).filter fun g => g.className ≠ f.className).map
        Fragment.className ↔ n ∈ (firstOfEach fs).map Fragment.className ∧ n ≠ f.className := by
      simp only [List.mem_map, List.mem_filter, decide_eq_true_eq]
      constructor
      · rintro ⟨g, ⟨hg, hne⟩, rfl⟩
        exact ⟨⟨g, hg, rfl⟩, hne⟩
      · rintro ⟨⟨g, hg, rfl⟩, hne⟩
        exact ⟨g, ⟨hg, hne⟩, rfl⟩
    rw [firstOfEach, List.map_cons, List.map_cons, List.mem_cons, List.mem_cons, hfilter, ih]
    tauto

/-- No class comes twice among the first fragments of each. -/
theorem nodup_className_firstOfEach (fs : List Fragment) :
    ((firstOfEach fs).map Fragment.className).Nodup := by
  induction fs with
  | nil => exact List.nodup_nil
  | cons f fs ih =>
    refine List.nodup_cons.2 ⟨?_, ih.sublist (List.filter_sublist.map _)⟩
    intro hmem
    obtain ⟨g, hg, e⟩ := List.mem_map.1 hmem
    exact of_decide_eq_true (List.mem_filter.1 hg).2 e

theorem length_firstOfEach (fs : List Fragment) :
    (firstOfEach fs).length = (fs.map Fragment.className).dedup.length := by
  have hperm : ((firstOfEach fs).map Fragment.className).Perm (fs.map Fragment.className).dedup :=
    perm_dedup_of_nodup (nodup_className_firstOfEach fs) fun _ => mem_className_firstOfEach
  rw [← hperm.length_eq, List.length_map]

end Fragment

namespace CommandLine

variable {files : Files} {config : RegistryConfig} {shown : List StyleRule}

/-! ## What is asked for -/

/-- The element that a style object is compiled to. -/
def elementOf (o : StyleObject) : StyleElement := (Compiler.new.build [.raw o]).1

/-- The class list of a style object. It is empty, or it is the name of a class. -/
def classListOf (o : StyleObject) : String := (elementOf o).classList

/-- The rules for the blocks among some entries, in their order. -/
def globalRules (entries : List (String × StyleEntry)) : List StyleRule :=
  entries.filterMap fun
    | (_, .value _) => none
    | (selector, .nested block) =>
      some ⟨blockText selector (Compiler.new.renderDeclarations block).1⟩

/-- The rules that come to the sheet: those of the first object of each class, and then the global
ones. -/
def offeredRules (objects : List StyleObject) (entries : List (String × StyleEntry)) :
    List StyleRule :=
  (Fragment.firstOfEach (objects.flatMap fun o => (elementOf o).fragments)).flatMap Fragment.rules ++
    globalRules entries

/-- The text of a sheet that shows `rules`: plain rules, then at-rules, each on a line of its own. -/
def cssOf (rules : List StyleRule) : String :=
  String.join ((rules.filter (fun rule => !rule.isAtRule) ++
    rules.filter (fun rule => rule.isAtRule)).map fun rule => rule.text ++ "\n")

/-- The report on a sheet that shows `rules`, where the files have the class lists `classes`. -/
def reportOn (format : OutputFormat) (classes : List String) (rules : List StyleRule) : Report :=
  let live := (classes.filter fun text => text ≠ "").dedup.length
  match format with
  | .json =>
    { output := line (Json.object
        [("classes", .array (classes.map Json.string)), ("liveClassNames", .number (.integer live)),
          ("css", .string (cssOf rules))]).writeSpread }
  | .text =>
    { output := cssOf rules
      remarks := line ("✓ " ++ toString rules.length ++ " rules from " ++
        toString classes.length ++ " files (" ++ toString live ++ " class names)") }

/-- The files hold these objects, and the file with the global rules, if there is one, these
entries. -/
structure Loads (files : Files) (paths : List String) (globals : Option String)
    (objects : List StyleObject) (entries : List (String × StyleEntry)) : Prop where
  objects : List.Forall₂ (fun path o => loadObject files path = .ok o) paths objects
  entries : loadGlobals files globals = .ok entries

/-! ## Class lists of single objects -/

theorem elementOf_eq (o : StyleObject) : ∃ owned, elementOf o = .node [] owned := ⟨_, rfl⟩

/-- Either nothing is declared in the object, or it has a class. -/
theorem classListOf_cases (o : StyleObject) :
    (elementOf o).fragments = [] ∧ classListOf o = "" ∨
      ∃ f, (elementOf o).fragments = [f] ∧ classListOf o = f.className.text := by
  obtain ⟨owned, howned⟩ := elementOf_eq o
  rw [classListOf, howned]
  cases owned with
  | none => exact .inl ⟨rfl, by rw [StyleElement.classList_eq]; rfl⟩
  | some f => exact .inr ⟨f, rfl, by rw [StyleElement.classList_eq]; rfl⟩

/-- The class lists that are not empty are the class names of the files, in order. -/
theorem classLists_eq (objects : List StyleObject) :
    (objects.map classListOf).filter (fun text => text ≠ "") =
      ((objects.flatMap fun o => (elementOf o).fragments).map Fragment.className).map
        ClassName.text := by
  induction objects with
  | nil => rfl
  | cons o objects ih =>
    rw [List.map_cons, List.flatMap_cons, List.map_append, List.map_append, ← ih, List.filter_cons]
    rcases classListOf_cases o with ⟨hnone, hlist⟩ | ⟨f, hsome, hlist⟩
    · simp [hnone, hlist]
    · simp [hsome, hlist, f.className.isClassText.1]

/-- There are as many classes as different class lists that are not empty. -/
theorem length_classLists (objects : List StyleObject) :
    ((objects.map classListOf).filter fun text => text ≠ "").dedup.length =
      (Fragment.firstOfEach (objects.flatMap fun o => (elementOf o).fragments)).length := by
  rw [classLists_eq, List.dedup_map_of_injective ClassName.text_injective, List.length_map,
    Fragment.length_firstOfEach]

/-- An object whose class list is empty, or came before, adds nothing. -/
theorem offeredRules_append_cons {before : List StyleObject} {o : StyleObject}
    (h : classListOf o = "" ∨ classListOf o ∈ before.map classListOf) (after : List StyleObject)
    (entries : List (String × StyleEntry)) :
    offeredRules (before ++ o :: after) entries = offeredRules (before ++ after) entries := by
  unfold offeredRules
  rw [List.flatMap_append, List.flatMap_append, List.flatMap_cons]
  rcases classListOf_cases o with ⟨hnone, -⟩ | ⟨f, hsome, hlist⟩
  · rw [hnone, List.nil_append]
  · have hne : f.className.text ≠ "" := f.className.isClassText.1
    have hbefore : f.className ∈
        (before.flatMap fun o => (elementOf o).fragments).map Fragment.className := by
      rw [hlist] at h
      obtain ⟨o', ho', hsame⟩ := List.mem_map.1 (h.resolve_left hne)
      rcases classListOf_cases o' with ⟨-, hlist'⟩ | ⟨g, hsome', hlist'⟩
      · rw [hlist'] at hsame
        exact absurd hsame.symm hne
      · have hname : g.className = f.className :=
          ClassName.text_injective (hlist'.symm.trans hsame)
        refine List.mem_map.2 ⟨g, List.mem_flatMap.2 ⟨o', ho', ?_⟩, hname⟩
        rw [hsome']
        exact List.mem_singleton_self g
    rw [hsome, List.singleton_append, Fragment.firstOfEach_append_cons hbefore]

/-! ## Compiling -/

/-- What the compiler has done before makes no difference to an element. -/
theorem build_eq_elementOf {c : Compiler} (hc : c.Faithful .standard) (o : StyleObject) :
    ∃ c', c.build [.raw o] = (elementOf o, c') ∧ c'.Faithful .standard := by
  obtain ⟨c', hbuild, hc'⟩ := hc.build [.raw o]
  obtain ⟨c₀, hnew, -⟩ := (Compiler.faithful_ofHash .standard).build [.raw o]
  have helement : elementOf o = (c.build [.raw o]).1 := by
    rw [hbuild, elementOf, show Compiler.new.build [.raw o] = _ from hnew]
  exact ⟨c', by rw [helement, hbuild], hc'⟩

/-- Where every file can be loaded, all of them are compiled in order. The compiler that is carried
from file to file builds what a new one would. -/
theorem compileFiles_ok {c : Compiler} (hc : c.Faithful .standard) {paths : List String}
    {objects : List StyleObject}
    (h : List.Forall₂ (fun path o => loadObject files path = .ok o) paths objects) :
    ∃ compiled c', compileFiles files c paths = (none, compiled, c') ∧
      compiled.map CompiledFile.element = objects.map elementOf ∧ c'.Faithful .standard := by
  induction h generalizing c with
  | nil => exact ⟨[], c, rfl, rfl, hc⟩
  | @cons path o paths objects hload _ ih =>
    obtain ⟨c₁, hbuild, hc₁⟩ := build_eq_elementOf hc o
    obtain ⟨compiled, c₂, hrest, helements, hc₂⟩ := ih hc₁
    refine ⟨⟨path, elementOf o⟩ :: compiled, c₂, ?_, ?_, hc₂⟩
    · simp only [compileFiles, hload, hbuild, hrest]
    · rw [List.map_cons, List.map_cons, helements]

/-- Where one of the files cannot be loaded, compiling them fails, whatever stands in front of it.
-/
theorem compileFiles_error (c : Compiler) {paths : List String}
    (h : ∃ path ∈ paths, ∃ failure, loadObject files path = .error failure) :
    ∃ failure compiled c', compileFiles files c paths = (some failure, compiled, c') := by
  induction paths generalizing c with
  | nil =>
    obtain ⟨path, hpath, -⟩ := h
    cases hpath
  | cons path paths ih =>
    cases hload : loadObject files path with
    | error failure => exact ⟨failure, [], c, by rw [compileFiles, hload]⟩
    | ok o =>
      have hrest : ∃ path ∈ paths, ∃ failure, loadObject files path = .error failure := by
        obtain ⟨path', hpath', failure, hfailure⟩ := h
        rcases List.mem_cons.1 hpath' with rfl | hpath'
        · rw [hload] at hfailure
          cases hfailure
        · exact ⟨path', hpath', failure, hfailure⟩
      obtain ⟨failure, compiled, c', heq⟩ := ih (c.build [.raw o]).2 hrest
      refine ⟨failure, ⟨path, (c.build [.raw o]).1⟩ :: compiled, c', ?_⟩
      simp only [compileFiles, hload, heq]

/-! ## Filling the sheet -/

open Registry

variable {r t : Registry SheetSink} {live : List ClassName}

theorem insertFiles_cons_ok {f : CompiledFile} {registration : Registration}
    (h : r.insert f.element = (.ok registration, t)) (fs : List CompiledFile) :
    insertFiles r (f :: fs) =
      ((insertFiles t fs).1.map (registration :: ·), (insertFiles t fs).2) := by
  rw [insertFiles, h]

/-- Each class that is not live yet becomes live, with the rules of its first file. -/
theorem offering_insertFiles (hr : r.Stands config live shown) {compiled : List CompiledFile}
    (hleaves : ∀ f ∈ compiled, f.element.composed = []) :
    let new := r.newFragments (compiled.flatMap fun f => f.element.fragments)
    Offering config live shown (new.map Fragment.className) (new.flatMap Fragment.rules)
      (insertFiles r compiled) := by
  induction compiled generalizing r live shown with
  | nil => exact .none hr []
  | cons f fs ih =>
    have hrest : ∀ f ∈ fs, f.element.composed = [] :=
      fun f' hf' => hleaves f' (List.mem_cons_of_mem f hf')
    obtain ⟨path, ⟨cs, owned⟩⟩ := f
    obtain rfl : cs = [] := hleaves _ List.mem_cons_self
    rw [List.flatMap_cons]
    cases owned with
    | none => exact (ih hr hrest).map (⟨r.id, .node [] none⟩ :: ·)
    | some f =>
      show let new := r.newFragments (f :: fs.flatMap fun f => f.element.fragments)
        Offering config live shown (new.map Fragment.className) (new.flatMap Fragment.rules)
          (insertFiles r (⟨path, .node [] (some f)⟩ :: fs))
      by_cases hf : f.className ∈ live
      · obtain ⟨t, hacquire, ht⟩ := acquire_live hr hf
        have hcontains : r.contains f.className = true := by
          rw [hr.contains_eq]
          exact decide_eq_true hf
        have hsame : ∀ n, t.contains n = r.contains n := by
          intro n
          rw [ht.contains_eq, hr.contains_eq]
        rw [newFragments_cons_of_contains _ hcontains hsame,
          insertFiles_cons_ok (f := ⟨path, .node [] (some f)⟩) (insert_of_acquire_ok hacquire)]
        exact (ih ht hrest).map _
      · have hoffer := offering_acquire hr hf
        have hcontains : r.contains f.className = false := by
          rw [hr.contains_eq]
          exact decide_eq_false hf
        rcases hacquire : r.acquire f with ⟨answer, t⟩
        rw [hacquire] at hoffer
        cases hoffer with
        | taken admits ht =>
          have hmore : ∀ n, t.contains n = (r.contains n || decide (n = f.className)) := by
            intro n
            rw [ht.contains_eq, hr.contains_eq]
            simp
          rw [newFragments_cons_of_not_contains _ hcontains hmore,
            insertFiles_cons_ok (f := ⟨path, .node [] (some f)⟩) (insert_of_acquire_ok hacquire)]
          exact .after [f.className] f.rules admits ((ih ht hrest).map _)
        | @refused err t refuses =>
          obtain ⟨others, hothers⟩ : ∃ others, r.newFragments
              (f :: fs.flatMap fun f => f.element.fragments) = f :: others :=
            ⟨_, by rw [newFragments, List.filter_cons_of_pos (by simp [hcontains]),
              Fragment.firstOfEach]⟩
          rw [hothers, insertFiles, insert_of_acquire_error hacquire]
          exact .ended f.rules refuses _ (others.flatMap Fragment.rules) _ _

/-- Global entries offer their blocks in order; plain values among them are passed over. -/
theorem offering_insertGlobals {c : Compiler} (hc : c.Faithful .standard)
    (hr : r.Stands config live shown) (entries : List (String × StyleEntry)) :
    Offering config live shown [] (globalRules entries) (insertGlobals c r entries) := by
  induction entries generalizing c r live shown with
  | nil => exact .none hr []
  | cons entry entries ih =>
    obtain ⟨selector, v | block⟩ := entry
    · exact ih (r := r.note (.entrySkipped selector)) hc ⟨hr.config_eq, hr.keys_eq, hr.shows⟩
    · obtain ⟨c', hrender, hc'⟩ := hc.renderGlobal selector block
      obtain ⟨c₀, hnew, -⟩ := (Compiler.faithful_ofHash .standard).renderDeclarations block
      have hrule : globalRules ((selector, .nested block) :: entries) =
          ⟨blockText selector (bodyText block.toList)⟩ :: globalRules entries := by
        have hbody : (Compiler.new.renderDeclarations block).1 = bodyText block.toList := by
          rw [show Compiler.new.renderDeclarations block = _ from hnew]
        rw [← hbody]
        rfl
      have hoffer := offering_insertGlobal hr ⟨blockText selector (bodyText block.toList)⟩
      rw [hrule, insertGlobals, hrender]
      simp only
      generalize r.insertGlobal ⟨blockText selector (bodyText block.toList)⟩ = p at hoffer
      cases hoffer with
      | taken admits ht => exact .after [] [_] admits ((ih hc' ht).map _)
      | refused refuses => exact .ended [_] refuses _ _ _ _

/-- Entries that are not blocks are reported. -/
theorem skipped_insertGlobals (c : Compiler) (r : Registry SheetSink)
    (entries : List (String × StyleEntry)) :
    Continues r (insertGlobals c r entries).2 ∧
      ∀ registrations t, insertGlobals c r entries = (.ok registrations, t) →
        ∀ selector v, (selector, .value v) ∈ entries → .entrySkipped selector ∈ t.log := by
  induction entries generalizing c r with
  | nil =>
    refine ⟨.refl r, ?_⟩
    intro registrations t _ selector v hmem
    cases hmem
  | cons entry entries ih =>
    obtain ⟨selector, v | block⟩ := entry
    · have hnote : Continues r (r.note (.entrySkipped selector)) := .of_log_eq_concat rfl rfl rfl rfl
      obtain ⟨hrest, hskipped⟩ := ih c (r.note (.entrySkipped selector))
      refine ⟨hnote.trans hrest, ?_⟩
      intro registrations t heq selector' v' hmem
      have heq : insertGlobals c (r.note (.entrySkipped selector)) entries =
        (.ok registrations, t) := heq
      rcases List.mem_cons.1 hmem with e | hmem
      · cases e
        rw [heq] at hrest
        obtain ⟨notices, hlog, -⟩ := hrest.log
        rw [hlog]
        exact List.mem_append_left _ (List.mem_append_right _ (List.mem_singleton_self _))
      · exact hskipped registrations t heq selector' v' hmem
    · have hinsert := continues_insertGlobal r (c.renderGlobal selector block).1
      unfold insertGlobals
      simp only
      rcases hanswer : r.insertGlobal (c.renderGlobal selector block).1 with ⟨e | registration, s⟩
      · rw [hanswer] at hinsert
        refine ⟨hinsert, ?_⟩
        intro registrations t heq
        cases heq
      · rw [hanswer] at hinsert
        obtain ⟨hrest, hskipped⟩ := ih (c.renderGlobal selector block).2 s
        refine ⟨hinsert.trans hrest, ?_⟩
        intro registrations t heq selector' v' hmem
        simp only at heq
        rcases hall : insertGlobals (c.renderGlobal selector block).2 s entries with ⟨e | rs, u⟩
        · rw [hall] at heq
          cases heq
        · rw [hall] at heq
          cases heq
          refine hskipped rs _ hall selector' v' ?_
          rcases List.mem_cons.1 hmem with e | hmem
          · cases e
          · exact hmem

/-- The sheet is filled with what is offered, or the settings do not admit it. -/
theorem fillSheet_cases (config : RegistryConfig) {c : Compiler} (hc : c.Faithful .standard)
    {compiled : List CompiledFile}
    {globals : Option String} {objects : List StyleObject} {entries : List (String × StyleEntry)}
    (helements : compiled.map CompiledFile.element = objects.map elementOf)
    (hentries : loadGlobals files globals = .ok entries) :
    let first := Fragment.firstOfEach (objects.flatMap fun o => (elementOf o).fragments)
    let offered := offeredRules objects entries
    let filled := fillSheet files c (Registry.new 0 config SheetSink.empty) compiled globals
    (config.Admits offered ∧ ∃ s, filled = .ok s ∧
      s.registry.Stands config (first.map Fragment.className) (sheetRules offered) ∧
      ∀ selector v, (selector, .value v) ∈ entries → .entrySkipped selector ∈ s.registry.log) ∨
    (¬ config.Admits offered ∧ ∃ failure r, filled = .error (failure, r)) := by
  intro first offered filled
  let r₀ := Registry.new 0 config SheetSink.empty
  have hr₀ : r₀.Stands config [] [] := ⟨rfl, rfl, SheetSink.shows_empty⟩
  have hleaves : ∀ f ∈ compiled, f.element.composed = [] := by
    intro f hf
    have hmem : f.element ∈ objects.map elementOf := helements ▸ List.mem_map_of_mem hf
    obtain ⟨o, -, ho⟩ := List.mem_map.1 hmem
    obtain ⟨owned, howned⟩ := elementOf_eq o
    rw [← ho, howned]
    rfl
  have hnew : r₀.newFragments (compiled.flatMap fun f => f.element.fragments) = first := by
    have hfragments : (compiled.flatMap fun f => f.element.fragments) =
        objects.flatMap fun o => (elementOf o).fragments := by
      rw [← List.flatMap_map, helements, List.flatMap_map]
    rw [hfragments]
    exact congrArg Fragment.firstOfEach (List.filter_eq_self.2 fun _ _ => rfl)
  have hfiles := offering_insertFiles hr₀ hleaves
  rw [hnew] at hfiles
  rcases hinsert : insertFiles r₀ compiled with ⟨answer, r₁⟩
  rw [hinsert] at hfiles
  have hinsert : insertFiles (Registry.new 0 config SheetSink.empty) compiled = (answer, r₁) := hinsert
  cases hfiles with
  | @refused failure _ refuses =>
    refine .inr ⟨fun h => refuses (RegistryConfig.admits_append.1 h).1, failure, r₁, ?_⟩
    simp only [filled, fillSheet, hinsert]
  | @taken registrations _ admits hr₁ =>
    have hglobals := offering_insertGlobals hc hr₁ entries
    have hskipped := (skipped_insertGlobals c r₁ entries).2
    rcases hinsert' : insertGlobals c r₁ entries with ⟨answer', r₂⟩
    rw [hinsert'] at hglobals
    have hall := Offering.after _ _ admits hglobals
    simp only [filled, fillSheet, hinsert, hentries, hinsert']
    cases hall with
    | @refused failure _ refuses => exact .inr ⟨refuses, failure, r₂, rfl⟩
    | @taken globals _ admits hr₂ =>
      rw [List.append_nil] at hr₂
      exact .inl ⟨admits, ⟨r₂, registrations, globals⟩, rfl, hr₂, hskipped globals r₂ hinsert'⟩

/-- A global file that cannot be loaded makes filling the sheet fail. -/
theorem fillSheet_error (c : Compiler) (r : Registry SheetSink) (compiled : List CompiledFile)
    {globals : Option String} {failure : Failure} (h : loadGlobals files globals = .error failure) :
    ∃ failure r', fillSheet files c r compiled globals = .error (failure, r') := by
  unfold fillSheet
  rcases insertFiles r compiled with ⟨failure' | registrations, r'⟩
  · exact ⟨failure', r', rfl⟩
  · simp only [h]
    exact ⟨failure, r', rfl⟩

/-- Releasing everything at the end reports no leak. -/
theorem continues_releaseAll (s : FilledSheet) : Continues s.registry s.releaseAll := by
  have hreleases : ∀ (registrations : List Registration) (r : Registry SheetSink),
      Continues r (registrations.foldl Registry.release r) := by
    intro registrations
    induction registrations with
    | nil => exact .refl
    | cons registration registrations ih =>
      intro r
      exact (continues_release r registration).trans (ih _)
  have hglobals : ∀ (registrations : List GlobalRegistration) (r : Registry SheetSink),
      Continues r (registrations.foldl Registry.releaseGlobal r) := by
    intro registrations
    induction registrations with
    | nil => exact .refl
    | cons registration registrations ih =>
      intro r
      exact (continues_releaseGlobal r registration).trans (ih _)
  exact (hreleases s.registrations s.registry).trans (hglobals s.globals _)

/-! ## The report -/

/-- The report on a filled sheet depends on nothing but the rules that the sheet shows and the class
lists of the files. -/
theorem sheetReport_eq {s : FilledSheet} {compiled : List CompiledFile} {objects : List StyleObject}
    {rules : List StyleRule} (format : OutputFormat)
    (helements : compiled.map CompiledFile.element = objects.map elementOf)
    (hs : s.registry.Stands config ((Fragment.firstOfEach
      (objects.flatMap fun o => (elementOf o).fragments)).map Fragment.className) rules) :
    sheetReport format compiled s = reportOn format (objects.map classListOf) rules := by
  have hcss : s.css = cssOf rules := by
    rw [FilledSheet.css, SheetSink.toCss, hs.shows.rules_eq, cssOf]
  have hlive : s.registry.entries.size =
      ((objects.map classListOf).filter fun text => text ≠ "").dedup.length := by
    rw [length_classLists, OrderedMap.size, ← List.length_map (f := Prod.fst)]
    exact (congrArg List.length hs.keys_eq).trans (List.length_map _)
  have hclasses : (compiled.map fun f => f.element.classList) = objects.map classListOf := by
    have hmap := congrArg (List.map StyleElement.classList) helements
    rw [List.map_map, List.map_map] at hmap
    exact hmap
  cases format with
  | json =>
    have hjson : (compiled.map fun f => Json.string f.element.classList) =
        (objects.map classListOf).map Json.string := by
      rw [← hclasses, List.map_map]
      rfl
    simp only [sheetReport, reportOn, hcss, hlive, hjson]
  | text =>
    have hfiles : compiled.length = (objects.map classListOf).length := by
      rw [← hclasses, List.length_map]
    simp only [sheetReport, reportOn, hcss, hlive, hs.shows.size_eq, hfiles]

/-- If all files can be loaded and the settings admit what is offered, the sheet command reports on
the offered rules that have the right shape, and tells about every global entry that is not a block.
A file whose class list is empty, or came before, adds nothing to what is offered, wherever it stands
behind. If a file cannot be loaded, or in strict mode a rule has the wrong shape, there is a failure
and no report. -/
theorem sheet_emits_each_class_once {i : Invocation} {paths : List String} {globals : Option String}
    (hconfig : loadConfig files i.config = .ok config) (hcommand : i.command = .sheet paths globals) :
    (∀ objects entries, Loads files paths globals objects entries →
      (config.mode = .strict → ∀ rule ∈ offeredRules objects entries, ruleFault rule = none) →
      let kept := (offeredRules objects entries).filter fun rule => ruleFault rule = none
      ∃ log, i.run files = (.ok (reportOn i.format (objects.map classListOf) kept), log) ∧
        ∀ selector v, (selector, .value v) ∈ entries → .entrySkipped selector ∈ log) ∧
    (∀ before o after entries, classListOf o = "" ∨ classListOf o ∈ before.map classListOf →
      offeredRules (before ++ o :: after) entries = offeredRules (before ++ after) entries) ∧
    ((∃ path ∈ paths, ∃ failure, loadObject files path = .error failure) ∨
      (∃ failure, loadGlobals files globals = .error failure) ∨
      (config.mode = .strict ∧ ∃ objects entries, Loads files paths globals objects entries ∧
        ∃ rule ∈ offeredRules objects entries, ruleFault rule ≠ none) →
      ∃ failure log, i.run files = (.error failure, log)) := by
  have hrun : i.run files = runSheet files config i.format paths globals := by
    simp only [Invocation.run, hconfig, hcommand]
  have hnew : Compiler.new.Faithful .standard := Compiler.faithful_ofHash .standard
  rw [hrun, runSheet]
  refine ⟨?_, ?_, ?_⟩
  · intro objects entries hloads hadmits kept
    obtain ⟨compiled, c, hcompile, helements, hc⟩ := compileFiles_ok hnew hloads.objects
    rw [hcompile]
    rcases fillSheet_cases config hc helements hloads.entries with
      ⟨-, s, hfilled, hs, hskipped⟩ | ⟨hrefuses, -⟩
    · simp only [hfilled]
      refine ⟨_, by rw [sheetReport_eq i.format helements hs]; rfl, ?_⟩
      intro selector v hmem
      obtain ⟨notices, hlog, -⟩ := (continues_releaseAll s).log
      rw [hlog]
      exact List.mem_append_right _ (List.mem_append_left _ (hskipped selector v hmem))
    · exact absurd hadmits hrefuses
  · intro before o after entries h
    exact offeredRules_append_cons h after entries
  · rintro (hpath | ⟨failure, hglobals⟩ | ⟨hstrict, objects, entries, hloads, rule, hrule, hfault⟩)
    · obtain ⟨failure, compiled, c, hcompile⟩ := compileFiles_error .new hpath
      rw [hcompile]
      exact ⟨failure, _, rfl⟩
    · rcases compileFiles files .new paths with ⟨failure' | _, compiled, c⟩
      · obtain ⟨failure', r, hfilled⟩ := fillSheet_error c
          (Registry.new 0 config SheetSink.empty) compiled hglobals
        simp only [hfilled]
        exact ⟨failure', _, rfl⟩
      · exact ⟨_, _, rfl⟩
    · obtain ⟨compiled, c, hcompile, helements, hc⟩ := compileFiles_ok hnew hloads.objects
      rw [hcompile]
      rcases fillSheet_cases config hc helements hloads.entries with
        ⟨hadmits, -⟩ | ⟨-, failure, r, hfilled⟩
      · exact absurd (hadmits hstrict rule hrule) hfault
      · simp only [hfilled]
        exact ⟨failure, _, rfl⟩

/-- Two files with the same content, and global entries of which one is not a block. -/
theorem sheet_emits_each_class_once_repeated :
    let files : Files := fun path =>
      if path = "globals" then .ok "\x7b\"body\":\x7b\"margin\":0\x7d,\"wide\":1\x7d"
      else .ok "\x7b\"@media print\":\x7b\"left\":0\x7d,\"color\":\"red\"\x7d"
    let i : Invocation := ⟨false, .text, none, .sheet ["a", "b"] (some "globals")⟩
    ∃ report log, loadConfig files i.config = .ok {} ∧ i.run files = (.ok report, log) ∧
      report.output = ".cUegGx\x7bcolor:red;\x7d\nbody\x7bmargin:0px;\x7d\n" ++
        "@media print\x7b.cUegGx\x7bleft:0px;\x7d\x7d\n" ∧
      .entrySkipped "wide" ∈ log := by
  intro files i
  let o : StyleObject := .ofList
    [("@media print", .nested (.ofList [("left", .number (.ofInt 0))])), ("color", .value (.text "red"))]
  let g : StyleObject := .ofList
    [("body", .nested (.ofList [("margin", .number (.ofInt 0))])), ("wide", .value (.number (.ofInt 1)))]
  have hloaded : ∀ path o, (loadObject files path).toOption = some o → loadObject files path = .ok o := by
    intro path o h
    cases hload : loadObject files path with
    | error failure =>
      rw [hload] at h
      cases h
    | ok o' =>
      rw [hload] at h
      cases h
      rfl
  have ha : loadObject files "a" = .ok o := hloaded _ _ (by decide +kernel)
  have hb : loadObject files "b" = .ok o := hloaded _ _ (by decide +kernel)
  have hg : loadObject files "globals" = .ok g := hloaded _ _ (by decide +kernel)
  have hloads : Loads files ["a", "b"] (some "globals") [o, o] g.toList := by
    refine ⟨.cons ha (.cons hb .nil), ?_⟩
    rw [loadGlobals, hg]
    rfl
  obtain ⟨hok, -, -⟩ := sheet_emits_each_class_once (i := i) (show loadConfig files none = .ok {} from rfl)
    rfl
  obtain ⟨log, hrun, hskipped⟩ := hok [o, o] g.toList hloads (by decide +kernel)
  refine ⟨_, log, rfl, hrun, by decide +kernel, ?_⟩
  exact hskipped "wide" (.number (.ofInt 1)) (by decide +kernel)

end CommandLine

end ScopedCss
