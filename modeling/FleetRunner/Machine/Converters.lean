import FleetRunner.Js.Ascii
import FleetRunner.Js.Value
import FleetRunner.Library.PosixPath
import FleetRunner.Library.Regex

/-!
# Model conversions (`converters.ts`, `workloads/modelconvert.ts`)

A job names the formats and quantisations it wants of a checkpoint. Each entry is
planned as the commands that make it, in a directory of its own.

## Implementation notes

Quantisation names are ASCII, so lower case is the ASCII one. What a command writes
and what it makes are read off its arguments as the tools document them.
-/

namespace FleetRunner.Machine.Converters

open Library Library.PosixPath

/-! ## The program -/

/-- What a model may be converted to. -/
inductive ConvertFormat where
  | gguf | coreml | tflite
  deriving DecidableEq

def ConvertFormat.text : ConvertFormat → String
  | .gguf => "gguf"
  | .coreml => "coreml"
  | .tflite => "tflite"

/-- A format by its name. -/
def asFormat? : Option Json → Option ConvertFormat
  | some (.str "gguf") => some .gguf
  | some (.str "coreml") => some .coreml
  | some (.str "tflite") => some .tflite
  | _ => none

/-- `QUANT_RE` -/
def isQuantName (s : String) : Bool :=
  decide (1 ≤ s.toList.length) && decide (s.toList.length ≤ 20) && s.toList.all isWordChar

/-- One of the outputs a job asks for. -/
structure OutputSpec where
  format : ConvertFormat
  quant : Option String
  deriving DecidableEq

section Parse

variable (js : Js)

def printed (v : Option Json) : String := v.elim "undefined" (Json.stringify js)

/-- The quantisation of an output, if it names one. -/
def quantOf (i : Nat) : Option Json → Except String (Option String)
  | none | some .null | some (.str "") => .ok none
  | some (.str s) =>
    if isQuantName s then .ok (some s)
    else .error ("params.outputs[" ++ toString i ++ "].quant is not a quantisation name: " ++
      printed js (some (.str s)))
  | v => .error ("params.outputs[" ++ toString i ++ "].quant is not a quantisation name: " ++
      printed js v)

/-- Parses the outputs from this one on, and refuses the second of a kind. -/
def parseFrom (i : Nat) (specs : List OutputSpec) : List Json → Except String (List OutputSpec)
  | [] => .ok specs
  | .obj fields :: rest =>
    match asFormat? (Fields.get? fields "format") with
    | none => .error ("params.outputs[" ++ toString i ++
        "].format must be one of gguf, coreml, tflite (got " ++
        printed js (Fields.get? fields "format") ++ ")")
    | some format =>
      match quantOf js i (Fields.get? fields "quant") with
      | .error e => .error e
      | .ok q =>
        if ⟨format, q⟩ ∈ specs then
          .error ("params.outputs asks for " ++ format.text ++ "/" ++ q.getD "none" ++ " twice")
        else parseFrom (i + 1) (specs ++ [⟨format, q⟩]) rest
  | _ :: _ => .error ("params.outputs[" ++ toString i ++ "] is not an object")

/-- The outputs of a job. -/
def parseOutputs : Option Json → Except String (List OutputSpec)
  | some (.arr (entry :: rest)) => parseFrom js 0 [] (entry :: rest)
  | _ => .error "model-convert needs params.outputs: a non-empty array of \x7b format, quant \x7d"

end Parse

/-- Where the converters are, as far as they are installed. -/
structure ConverterTools where
  ggufConvert : Option String
  ggufQuantize : Option String
  ggufPython : Option String
  coremlPython : Option String
  coremlConvert : Option String
  xcrun : Option String
  tflitePython : Option String
  tfliteQuantize : Option String

/-- A command of a plan. -/
structure Step where
  cmd : String
  args : List (List Char)
  cwd : List Char
  label : String

/-- What comes out of a plan. -/
inductive ModelFormat where
  | gguf | mlmodelc | tflite

/-- The commands that make an output, and what they leave. -/
structure ConvertPlan where
  format : ConvertFormat
  quant : Option String
  steps : List Step
  product : List Char
  modelFormat : ModelFormat

/-- The name the Core ML converter gives what it makes. -/
def coremlProductBase : String := "PlantNet300K"

/-- What an output is made from, and where. -/
structure PlanContext where
  source : List Char
  outDir : List Char
  name : List Char
  calibrationDir : Option String

/-- A path that resolved. -/
def there (tool : Option String) : Option String := tool.filter (· ≠ "")

def lower (s : String) : String := Js.lowerAscii s

/-- The quantisation that is left to `llama-quantize`: f16 is the converter's own output. -/
def wantedQuant (quant : Option String) : Option String :=
  quant.filter fun q => decide (lower q ∉ ["f16", "f32"])

/-- A gguf file is converted, and then quantised unless the converter does that. -/
def planGguf (spec : OutputSpec) (tools : ConverterTools) (ctx : PlanContext) :
    Except String ConvertPlan :=
  match there tools.ggufConvert, there tools.ggufPython with
  | some convert, some python =>
    let f16 := join [ctx.outDir, ctx.name ++ "-f16.gguf".toList]
    let first : Step := ⟨python, [convert.toList, ctx.source, "--outfile".toList, f16,
      "--outtype".toList, "f16".toList], ctx.outDir, "convert_hf_to_gguf"⟩
    match wantedQuant spec.quant with
    | none => .ok ⟨.gguf, spec.quant, [first], basename f16, .gguf⟩
    | some q =>
      match there tools.ggufQuantize with
      | none => .error ("gguf/" ++ q ++ ": llama-quantize does not resolve here, so only an f16 " ++
          "GGUF can be produced (set FLEET_LLAMA_QUANTIZE)")
      | some quantize =>
        let quantised := join [ctx.outDir, ctx.name ++ ("-" ++ lower q ++ ".gguf").toList]
        let second : Step := ⟨quantize, [f16, quantised, q.toList], ctx.outDir,
          "llama-quantize " ++ q⟩
        .ok ⟨.gguf, spec.quant, [first, second], basename quantised, .gguf⟩
  | _, _ => .error ("gguf: llama.cpp's convert_hf_to_gguf.py does not resolve here (set " ++
      "FLEET_LLAMA_CPP to the checkout, or FLEET_CONVERT_HF_TO_GGUF to the script)")

/-- The name of what the Core ML converter leaves for a quantisation. -/
def coremlBase (quant : Option String) : String :=
  if quant.any fun q => decide (lower q = "int8") then coremlProductBase ++ "-int8"
  else coremlProductBase

/-- Core ML models come from one converter. -/
def planCoreml (spec : OutputSpec) (tools : ConverterTools) (ctx : PlanContext) :
    Except String ConvertPlan :=
  match there tools.coremlPython, there tools.coremlConvert with
  | some python, some convert =>
    match there tools.xcrun with
    | none => .error ("coreml: xcrun does not resolve, so `coremlcompiler compile` cannot run — " ++
        "an .mlpackage is not a loadable model")
    | some xcrun =>
      match spec.quant.filter fun q => decide (lower q ∉ ["int8", "f16", "fp16"]) with
      | some q => .error ("coreml/" ++ q ++
          ": convert_coreml.py produces fp16 weights and an int8 variant, nothing else")
      | none =>
        let base := coremlBase spec.quant
        .ok ⟨.coreml, spec.quant,
          [⟨python, [convert.toList, ctx.source], ctx.outDir, "convert_coreml.py"⟩,
            ⟨xcrun, ["coremlcompiler".toList, "compile".toList, (base ++ ".mlpackage").toList,
              ['.']], ctx.outDir, "coremlcompiler compile"⟩,
            ⟨"ditto", ["-c".toList, "-k".toList, "--sequesterRsrc".toList, "--keepParent".toList,
              (base ++ ".mlmodelc").toList, (base ++ ".mlmodelc.zip").toList], ctx.outDir,
              "ditto"⟩],
          (base ++ ".mlmodelc.zip").toList, .mlmodelc⟩
  | _, _ => .error ("coreml: no interpreter here imports coremltools (set FLEET_COREML_PYTHON " ++
      "to one, e.g. a 3.12 venv — coremltools' BlobWriter has no 3.14 wheel)")

/-- TFLite models come from one converter. -/
def planTflite (spec : OutputSpec) (tools : ConverterTools) (ctx : PlanContext) :
    Except String ConvertPlan :=
  match there tools.tflitePython, there tools.tfliteQuantize with
  | some python, some quantize =>
    if spec.quant.any fun q => decide (lower q = "int8") then
      match there ctx.calibrationDir with
      | none => .error ("tflite/int8: needs params.calibration_sha256, a zip of ~100 " ++
          "calibration images DISJOINT from the eval set")
      | some calibration =>
        let out := ctx.name ++ "-int8.tflite".toList
        .ok ⟨.tflite, spec.quant,
          [⟨python, [quantize.toList, ctx.source, calibration.toList, join [ctx.outDir, out]],
            ctx.outDir, "quantize_int8.py"⟩], out, .tflite⟩
    else .error ("tflite/" ++ spec.quant.getD "none" ++
      ": the LiteRT converter here is quantize_int8.py, so quant must be int8")
  | _, _ => .error ("tflite: no interpreter here imports ai_edge_litert (set " ++
      "FLEET_TFLITE_PYTHON to one — `pip install ai-edge-litert Pillow numpy`)")

/-- The plan for an output, by its format. -/
def planConvert (spec : OutputSpec) (tools : ConverterTools) (ctx : PlanContext) :
    Except String ConvertPlan :=
  match spec.format with
  | .gguf => planGguf spec tools ctx
  | .coreml => planCoreml spec tools ctx
  | .tflite => planTflite spec tools ctx

/-- The directory that `runModelConvert` gives an entry. -/
def outDirOf (workRoot : List Char) (spec : OutputSpec) : List Char :=
  join [workRoot, (spec.format.text ++ "-" ++ lower (spec.quant.getD "none")).toList]

/-! ## What the commands do -/

namespace Step

/-- Does the step quantise a gguf file? -/
def isQuantize (s : Step) : Bool := "llama-quantize ".toList.isPrefixOf s.label.toList

/-- The files a command is told to write. -/
def writes (s : Step) : List (List Char) :=
  if s.isQuantize then (s.args[1]?).toList
  else if s.label = "convert_hf_to_gguf" then (s.args[3]?).toList
  else if s.label = "convert_coreml.py" then
    [join [s.cwd, "PlantNet300K.mlpackage".toList],
      join [s.cwd, "PlantNet300K-int8.mlpackage".toList]]
  else if s.label = "coremlcompiler compile" then
    (s.args[2]?).toList.map fun package =>
      join [s.cwd, package.take (package.length - ".mlpackage".toList.length) ++ ".mlmodelc".toList]
  else if s.label = "ditto" then (s.args[5]?).toList.map fun zip => join [s.cwd, zip]
  else if s.label = "quantize_int8.py" then (s.args[3]?).toList
  else []

/-- The quantisation that a conversion command makes. -/
def makes (s : Step) : Option String :=
  if s.isQuantize then (s.args[2]?).map String.ofList
  else if s.label = "convert_hf_to_gguf" then (s.args[5]?).map String.ofList
  else if s.label = "coremlcompiler compile" then
    (s.args[2]?).map fun package =>
      if package = "PlantNet300K-int8.mlpackage".toList then "int8" else "fp16"
  else if s.label = "quantize_int8.py" then some "int8"
  else none

end Step

/-- What the last conversion of a plan makes. -/
def ConvertPlan.made (plan : ConvertPlan) : Option String :=
  (plan.steps.filterMap Step.makes).getLast?

def halfNames : List String := ["f16", "fp16"]

/-- The label is of what was made; without one it is the converter's own half precision. -/
def Labelled (quant : Option String) (made : String) : Prop :=
  match quant with
  | none => lower made ∈ halfNames
  | some q => lower q = lower made ∨ (lower q ∈ halfNames ∧ lower made ∈ halfNames)

/-- A job's conversions: where it works, what it converts, and under which name. -/
structure Work where
  workRoot : List Char
  name : List Char
  source : List Char
  calibrationDir : Option String
  tools : ConverterTools

namespace Work

/-- The plan for an output of a job. -/
def plan (w : Work) (spec : OutputSpec) : Except String ConvertPlan :=
  planConvert spec w.tools ⟨w.source, outDirOf w.workRoot spec, w.name, w.calibrationDir⟩

/-- Where an entry's product is looked for. -/
def productPath (w : Work) (spec : OutputSpec) (plan : ConvertPlan) : List Char :=
  join [outDirOf w.workRoot spec, plan.product]

end Work

/-- Products of different entries are different files, what is written stays in the entry's own
directory, and what is made is what the label says. -/
structure Faithful (w : Work) (specs : List OutputSpec) : Prop where
  distinct : ∀ (i j : Nat) s t p q, i ≠ j → specs[i]? = some s → specs[j]? = some t →
    w.plan s = .ok p → w.plan t = .ok q → w.productPath s p ≠ w.productPath t q
  inside : ∀ s ∈ specs, ∀ p, w.plan s = .ok p → ∀ step ∈ p.steps, ∀ f ∈ step.writes,
    Inside (outDirOf w.workRoot s) f
  labelled : ∀ s ∈ specs, ∀ p, w.plan s = .ok p → ∃ made, p.made = some made ∧
    Labelled p.quant made

/-- The tools that an entry needs resolve, and the converter knows its quantisation. -/
def Convertible (w : Work) (spec : OutputSpec) : Prop :=
  match spec.format with
  | .gguf => (there w.tools.ggufConvert).isSome ∧ (there w.tools.ggufPython).isSome ∧
      ((∀ q ∈ spec.quant, lower q ∈ ["f16", "f32"]) ∨ (there w.tools.ggufQuantize).isSome)
  | .coreml => (there w.tools.coremlPython).isSome ∧ (there w.tools.coremlConvert).isSome ∧
      (there w.tools.xcrun).isSome ∧ ∀ q ∈ spec.quant, lower q ∈ ["int8", "f16", "fp16"]
  | .tflite => (there w.tools.tflitePython).isSome ∧ (there w.tools.tfliteQuantize).isSome ∧
      (there w.calibrationDir).isSome ∧ ∃ q ∈ spec.quant, lower q = "int8"

/-! ## Plans -/

/-- What is put behind the name for the files of a GGUF entry, the product last. -/
def ggufSuffixes (quant : Option String) : List (List Char) :=
  "-f16.gguf".toList :: (wantedQuant quant).toList.map fun q => ("-" ++ lower q ++ ".gguf").toList

section Steps

variable (cmd : String) (cwd : List Char)

theorem isQuantize_label (args : List (List Char)) (q : String) :
    (Step.mk cmd args cwd ("llama-quantize " ++ q)).isQuantize = true := by
  simp [Step.isQuantize]

theorem writes_quantize (f out q' : List Char) (q : String) :
    (Step.mk cmd [f, out, q'] cwd ("llama-quantize " ++ q)).writes = [out] := by
  rw [Step.writes, if_pos (isQuantize_label cmd cwd _ q)]
  rfl

theorem makes_quantize (f out : List Char) (q : String) :
    (Step.mk cmd [f, out, q.toList] cwd ("llama-quantize " ++ q)).makes = some q := by
  rw [Step.makes, if_pos (isQuantize_label cmd cwd _ q)]
  simp

theorem writes_convert (a b c out d e : List Char) :
    (Step.mk cmd [a, b, c, out, d, e] cwd "convert_hf_to_gguf").writes = [out] := by
  simp [Step.writes, Step.isQuantize]

theorem makes_convert (a b c out d : List Char) :
    (Step.mk cmd [a, b, c, out, d, "f16".toList] cwd "convert_hf_to_gguf").makes =
      some "f16" := by
  simp [Step.makes, Step.isQuantize]

theorem writes_script (args : List (List Char)) :
    (Step.mk cmd args cwd "convert_coreml.py").writes =
      [join [cwd, "PlantNet300K.mlpackage".toList],
        join [cwd, "PlantNet300K-int8.mlpackage".toList]] := by
  simp [Step.writes, Step.isQuantize]

theorem writes_compile (a b d : List Char) (base : String) :
    (Step.mk cmd [a, b, (base ++ ".mlpackage").toList, d] cwd "coremlcompiler compile").writes =
      [join [cwd, (base ++ ".mlmodelc").toList]] := by
  have hstem : (base ++ ".mlpackage").toList.take
      ((base ++ ".mlpackage").toList.length - ".mlpackage".toList.length) = base.toList := by
    rw [String.toList_append, List.length_append]
    exact List.take_left' (by simp)
  rw [Step.writes, if_neg (by simp [Step.isQuantize]), if_neg (by simp), if_neg (by simp),
    if_pos rfl]
  change [join [cwd, (base ++ ".mlpackage").toList.take _ ++ _]] = _
  rw [hstem, String.toList_append]

theorem writes_ditto (a b c d e zip : List Char) :
    (Step.mk cmd [a, b, c, d, e, zip] cwd "ditto").writes = [join [cwd, zip]] := by
  simp [Step.writes, Step.isQuantize]

theorem writes_int8 (a b c out : List Char) :
    (Step.mk cmd [a, b, c, out] cwd "quantize_int8.py").writes = [out] := by
  simp [Step.writes, Step.isQuantize]

theorem makes_script (args : List (List Char)) :
    (Step.mk cmd args cwd "convert_coreml.py").makes = none := by
  simp [Step.makes, Step.isQuantize]

theorem makes_compile (a b d package : List Char) :
    (Step.mk cmd [a, b, package, d] cwd "coremlcompiler compile").makes =
      some (if package = "PlantNet300K-int8.mlpackage".toList then "int8" else "fp16") := by
  rw [Step.makes, if_neg (by simp [Step.isQuantize]), if_neg (by simp), if_pos rfl]
  rfl

theorem makes_ditto (args : List (List Char)) : (Step.mk cmd args cwd "ditto").makes = none := by
  simp [Step.makes, Step.isQuantize]

theorem makes_int8 (args : List (List Char)) :
    (Step.mk cmd args cwd "quantize_int8.py").makes = some "int8" := by
  rw [Step.makes, if_neg (by simp [Step.isQuantize]), if_neg (by simp), if_neg (by simp),
    if_pos rfl]

end Steps

theorem planGguf_spec {spec : OutputSpec} {tools : ConverterTools} {ctx : PlanContext}
    {plan : ConvertPlan} (h : planGguf spec tools ctx = .ok plan) :
    plan.quant = spec.quant ∧ plan.made = some ((wantedQuant spec.quant).getD "f16") ∧
    plan.steps.flatMap Step.writes =
      (ggufSuffixes spec.quant).map (fun suffix => join [ctx.outDir, ctx.name ++ suffix]) ∧
    plan.product =
      basename (join [ctx.outDir, ctx.name ++ (ggufSuffixes spec.quant).getLastD []]) := by
  unfold planGguf at h
  unfold ggufSuffixes
  split at h
  · cases hquant : wantedQuant spec.quant with
    | none =>
      simp only [hquant] at h
      obtain rfl := Except.ok.inj h
      refine ⟨rfl, ?_, ?_, rfl⟩
      · simp only [ConvertPlan.made, List.filterMap_cons, makes_convert, List.filterMap_nil,
          List.getLast?_singleton, Option.getD_none]
      · simp only [List.flatMap_cons, writes_convert, List.flatMap_nil, Option.toList_none,
          List.map_cons, List.map_nil, List.append_nil]
    | some q =>
      simp only [hquant] at h
      split at h
      · cases h
      · obtain rfl := Except.ok.inj h
        refine ⟨rfl, ?_, ?_, rfl⟩
        · simp [ConvertPlan.made, makes_quantize]
        · simp only [List.flatMap_cons, writes_convert, writes_quantize, List.flatMap_nil,
            Option.toList_some, List.map_cons, List.map_nil, List.append_nil, List.singleton_append]
  · cases h

theorem isName_coreml (quant : Option String) {ending : String} (h : '/' ∉ ending.toList) :
    IsName (coremlBase quant ++ ending).toList := by
  have hbase : 'P' ∈ (coremlBase quant).toList ∧ '/' ∉ (coremlBase quant).toList := by
    unfold coremlBase coremlProductBase
    split <;> simp
  refine isName_of_mem (c := 'P') ?_ (by decide) ?_
  · rw [String.toList_append]
    exact List.mem_append_left _ hbase.1
  · rw [String.toList_append, List.mem_append, not_or]
    exact ⟨hbase.2, h⟩

theorem planCoreml_spec {spec : OutputSpec} {tools : ConverterTools} {ctx : PlanContext}
    {plan : ConvertPlan} (h : planCoreml spec tools ctx = .ok plan) :
    plan.quant = spec.quant ∧
    plan.made = some (if spec.quant.any (fun q => decide (lower q = "int8")) then "int8"
      else "fp16") ∧
    (∀ f ∈ plan.steps.flatMap Step.writes, ∃ n, IsName n ∧ f = join [ctx.outDir, n]) ∧
    plan.product = (coremlBase spec.quant ++ ".mlmodelc.zip").toList := by
  unfold planCoreml at h
  split at h
  · split at h
    · cases h
    · split at h
      · cases h
      · obtain rfl := Except.ok.inj h
        refine ⟨rfl, ?_, fun f hf => ?_, rfl⟩
        · simp only [ConvertPlan.made, List.filterMap_cons, makes_script, makes_compile,
            makes_ditto, List.filterMap_nil, List.getLast?_singleton]
          refine congrArg some ?_
          unfold coremlBase
          split
          · exact if_pos (by simp [coremlProductBase])
          · exact if_neg (by simp [coremlProductBase])
        · simp only [List.flatMap_cons, writes_script, writes_compile, writes_ditto,
            List.flatMap_nil, List.append_nil, List.mem_append, List.mem_cons, List.not_mem_nil,
            or_false] at hf
          rcases hf with (hf | hf) | hf | hf
          · exact ⟨_, isName_of_mem (c := 'P') (by simp) (by decide) (by simp), hf⟩
          · exact ⟨_, isName_of_mem (c := 'P') (by simp) (by decide) (by simp), hf⟩
          · exact ⟨_, isName_coreml _ (by simp), hf⟩
          · exact ⟨_, isName_coreml _ (by simp), hf⟩
  · cases h

theorem planTflite_spec {spec : OutputSpec} {tools : ConverterTools} {ctx : PlanContext}
    {plan : ConvertPlan} (h : planTflite spec tools ctx = .ok plan) :
    plan.quant = spec.quant ∧ plan.made = some "int8" ∧
    plan.steps.flatMap Step.writes = [join [ctx.outDir, ctx.name ++ "-int8.tflite".toList]] ∧
    plan.product = ctx.name ++ "-int8.tflite".toList := by
  unfold planTflite at h
  split at h
  · split at h
    · split at h
      · cases h
      · obtain rfl := Except.ok.inj h
        refine ⟨rfl, ?_, ?_, rfl⟩
        · simp only [ConvertPlan.made, List.filterMap_cons, makes_int8, List.filterMap_nil,
            List.getLast?_singleton]
        · simp only [List.flatMap_cons, writes_int8, List.flatMap_nil, List.append_nil]
    · cases h
  · cases h

theorem wantedQuant_none (quant : Option String) :
    wantedQuant quant = none ↔ ∀ q ∈ quant, lower q ∈ ["f16", "f32"] := by
  unfold wantedQuant
  cases quant with
  | none => simp
  | some q => simp [Option.filter_some, or_iff_not_imp_left]

/-- A plan is made of an entry exactly when it can be converted. -/
theorem plan_ok_iff (w : Work) (spec : OutputSpec) :
    (∃ p, w.plan spec = .ok p) ↔ Convertible w spec := by
  obtain ⟨format, quant⟩ := spec
  unfold Work.plan planConvert Convertible
  cases format with
  | gguf =>
    simp only [planGguf, ← wantedQuant_none]
    cases there w.tools.ggufConvert <;> cases there w.tools.ggufPython <;>
      cases wantedQuant quant <;> cases there w.tools.ggufQuantize <;> simp
  | coreml =>
    simp only [planCoreml]
    have hnone : (quant.filter fun q => decide (lower q ∉ ["int8", "f16", "fp16"])) = none ↔
        ∀ q ∈ quant, lower q ∈ ["int8", "f16", "fp16"] := by
      cases quant <;> simp [Option.filter_some, or_iff_not_imp_left]
    rw [← hnone]
    cases there w.tools.coremlPython <;> cases there w.tools.coremlConvert <;>
      cases there w.tools.xcrun <;>
      cases quant.filter fun q => decide (lower q ∉ ["int8", "f16", "fp16"]) <;> simp
  | tflite =>
    simp only [planTflite]
    have hint8 : (∃ q ∈ quant, lower q = "int8") ↔
        quant.any (fun q => decide (lower q = "int8")) = true := by
      cases quant <;> simp
    rw [hint8]
    cases there w.tools.tflitePython <;> cases there w.tools.tfliteQuantize <;>
      cases there w.calibrationDir <;>
      cases quant.any (fun q => decide (lower q = "int8")) <;> simp

/-! ## Where the files are -/

/-- The directory an output has for itself. -/
def subdir (spec : OutputSpec) : List Char :=
  (spec.format.text ++ "-" ++ lower (spec.quant.getD "none")).toList

/-- The place of an entry's directory. -/
def placeOf (workRoot : List Char) (spec : OutputSpec) : List Part :=
  walk (isAbsolute workRoot) [] (workRoot.splitOn '/') ++ [subdir spec]

/-- A quantisation's name has no slash. -/
def Named (spec : OutputSpec) : Prop := ∀ q ∈ spec.quant, isQuantName q = true

theorem toList_lower (s : String) : (lower s).toList = s.toList.map Char.toLower := by
  simp [lower, Js.lowerAscii]

theorem slash_lower {spec : OutputSpec} (h : Named spec) :
    '/' ∉ (lower (spec.quant.getD "none")).toList := by
  have hplain : '/' ∉ (spec.quant.getD "none").toList := by
    cases hquant : spec.quant with
    | none => simp
    | some q =>
      intro hmem
      have hq := h q hquant
      simp only [isQuantName, Bool.and_eq_true] at hq
      exact absurd (List.all_eq_true.mp hq.2 '/' hmem) (by decide)
  rw [toList_lower, List.mem_map]
  rintro ⟨c, hc, hslash⟩
  rw [toLower_eq_iff (by decide) (by decide)] at hslash
  exact hplain (hslash ▸ hc)

theorem isName_subdir {spec : OutputSpec} (h : Named spec) : IsName (subdir spec) := by
  have hformat : '/' ∉ spec.format.text.toList := by cases spec.format <;> simp [ConvertFormat.text]
  refine isName_of_mem (c := '-') ?_ (by decide) ?_
  · simp [subdir]
  · simp [subdir, hformat, slash_lower h]

theorem normal_placeOf (workRoot : List Char) {spec : OutputSpec} (h : Named spec) :
    Normal (isAbsolute workRoot) (placeOf workRoot spec) :=
  (normal_nil.walk (slash_of_splitOn workRoot)).append_name (isName_subdir h)

theorem outDirOf_eq (workRoot : List Char) {spec : OutputSpec} (h : Named spec) :
    outDirOf workRoot spec = render (isAbsolute workRoot) (placeOf workRoot spec) :=
  join_name workRoot (isName_subdir h)

/-- What ends the name of a GGUF entry's product. -/
def ggufEnding (quant : Option String) : List Char := (ggufSuffixes quant).getLastD []

/-- The place of an entry's product. -/
def productPlace (w : Work) (spec : OutputSpec) : List Part :=
  let place := placeOf w.workRoot spec
  match spec.format with
  | .gguf => place ++ [last w.name ++ ggufEnding spec.quant]
  | .coreml => place ++ [(coremlBase spec.quant ++ ".mlmodelc.zip").toList]
  | .tflite => walk (isAbsolute w.workRoot) place (upTo w.name) ++
      [last w.name ++ "-int8.tflite".toList]

theorem isName_append (name : List Char) {suffix : List Char} (hdash : '-' ∈ suffix)
    (hslash : '/' ∉ suffix) : IsName (last name ++ suffix) := by
  refine isName_of_mem (List.mem_append_right _ hdash) (by decide) ?_
  rw [List.mem_append, not_or]
  exact ⟨last_slash name, hslash⟩

theorem ggufSuffix_facts {spec : OutputSpec} (h : Named spec) :
    ∀ suffix ∈ ggufSuffixes spec.quant, '-' ∈ suffix ∧ '/' ∉ suffix := by
  have hlower := slash_lower h
  intro suffix hsuffix
  rcases List.mem_cons.mp hsuffix with rfl | hsuffix
  · simp
  · obtain ⟨q, hq, rfl⟩ := List.mem_map.mp hsuffix
    have hquant : spec.quant = some q :=
      (Option.filter_eq_some_iff.mp (Option.mem_toList.mp hq)).1
    rw [hquant, Option.getD_some] at hlower
    simp [hlower]

theorem ggufEnding_mem (quant : Option String) : ggufEnding quant ∈ ggufSuffixes quant := by
  unfold ggufEnding ggufSuffixes
  cases wantedQuant quant <;> simp

section Place

variable {w : Work} {spec : OutputSpec} (hnamed : Named spec)

include hnamed

/-- A file that the name and a suffix make. -/
theorem join_suffix {suffix : List Char} (hdash : '-' ∈ suffix) (hslash : '/' ∉ suffix) :
    join [outDirOf w.workRoot spec, w.name ++ suffix] = render (isAbsolute w.workRoot)
      (walk (isAbsolute w.workRoot) (placeOf w.workRoot spec) (upTo w.name) ++
        [last w.name ++ suffix]) := by
  rw [outDirOf_eq w.workRoot hnamed]
  exact join_file (normal_placeOf w.workRoot hnamed) (by simp [placeOf]) hslash w.name
    (isName_append w.name hdash hslash)

theorem normal_suffix {suffix : List Char} (hdash : '-' ∈ suffix) (hslash : '/' ∉ suffix) :
    Normal (isAbsolute w.workRoot)
      (walk (isAbsolute w.workRoot) (placeOf w.workRoot spec) (upTo w.name) ++
        [last w.name ++ suffix]) :=
  ((normal_placeOf w.workRoot hnamed).walk (upTo_slash w.name)).append_name
    (isName_append w.name hdash hslash)

/-- A file with a name of its own is in the directory. -/
theorem join_in {n : Part} (hn : IsName n) :
    join [outDirOf w.workRoot spec, n] =
      render (isAbsolute w.workRoot) (placeOf w.workRoot spec ++ [n]) := by
  have hplace := normal_placeOf w.workRoot hnamed
  have hne : placeOf w.workRoot spec ≠ [] := by simp [placeOf]
  rw [outDirOf_eq w.workRoot hnamed, join_name _ hn, isAbsolute_render hplace hne,
    walk_splitOn_render hplace hne]

theorem productPath_eq {p : ConvertPlan} (hplan : w.plan spec = .ok p) :
    w.productPath spec p = render (isAbsolute w.workRoot) (productPlace w spec) := by
  unfold Work.plan planConvert at hplan
  unfold Work.productPath productPlace
  cases hformat : spec.format with
  | gguf =>
    simp only [hformat] at hplan
    obtain ⟨-, -, -, hproduct⟩ := planGguf_spec hplan
    obtain ⟨hdash, hslash⟩ := ggufSuffix_facts hnamed _ (ggufEnding_mem spec.quant)
    change p.product = basename (join [outDirOf w.workRoot spec, w.name ++ ggufEnding spec.quant])
      at hproduct
    rw [hproduct, join_suffix hnamed hdash hslash,
      basename_render (normal_suffix hnamed hdash hslash),
      join_in hnamed (isName_append w.name hdash hslash)]
  | coreml =>
    simp only [hformat] at hplan
    obtain ⟨-, -, -, hproduct⟩ := planCoreml_spec hplan
    rw [hproduct, join_in hnamed (isName_coreml _ (by simp))]
  | tflite =>
    simp only [hformat] at hplan
    obtain ⟨-, -, -, hproduct⟩ := planTflite_spec hplan
    rw [hproduct]
    exact join_suffix hnamed (by simp) (by simp)

theorem normal_productPlace : Normal (isAbsolute w.workRoot) (productPlace w spec) := by
  unfold productPlace
  cases spec.format with
  | gguf =>
    obtain ⟨hdash, hslash⟩ := ggufSuffix_facts hnamed _ (ggufEnding_mem spec.quant)
    exact (normal_placeOf w.workRoot hnamed).append_name (isName_append w.name hdash hslash)
  | coreml => exact (normal_placeOf w.workRoot hnamed).append_name (isName_coreml _ (by simp))
  | tflite => exact normal_suffix hnamed (by simp) (by simp)

omit hnamed

theorem productPlace_ne_nil : productPlace w spec ≠ [] := by
  unfold productPlace
  cases spec.format <;> simp

end Place

/-! ## Collisions -/

theorem lower_getD {a b : Option String} (h : a.map lower = b.map lower) :
    lower (a.getD "none") = lower (b.getD "none") := by
  cases a <;> cases b <;> simp_all

theorem wantedQuant_lower {a b : Option String} (h : a.map lower = b.map lower) :
    (wantedQuant a).map lower = (wantedQuant b).map lower := by
  cases a <;> cases b <;> simp_all [wantedQuant, Option.filter_some]

theorem lower_f16 : lower "f16" = "f16" := rfl

theorem lower_fp16 : lower "fp16" = "fp16" := rfl

theorem lower_int8 : lower "int8" = "int8" := rfl

theorem lower_none : lower "none" = "none" := rfl

theorem any_lower (quant : Option String) (name : String) :
    quant.any (fun q => decide (lower q = name)) = (quant.map lower).any (· = name) := by
  cases quant <;> rfl

theorem ggufEnding_eq (quant : Option String) :
    ggufEnding quant = ("-" ++ ((wantedQuant quant).map lower).getD "f16" ++ ".gguf").toList := by
  unfold ggufEnding ggufSuffixes
  cases wantedQuant quant <;> simp

def lastChar : ConvertFormat → Char
  | .gguf => 'f'
  | .coreml => 'p'
  | .tflite => 'e'

theorem getLast?_file (place : List Part) (name : List Char) {ending : List Char} {c : Char}
    (h : ending.getLast? = some c) :
    (place ++ [name ++ ending]).getLast?.bind List.getLast? = some c := by
  have hne : ending ≠ [] := by
    rintro rfl
    cases h
  rw [List.getLast?_concat, Option.bind_some, getLast?_append_right hne, h]

/-- The products of different formats end in different letters. -/
theorem productPlace_last (w : Work) (spec : OutputSpec) :
    (productPlace w spec).getLast?.bind List.getLast? = some (lastChar spec.format) := by
  unfold productPlace
  cases spec.format with
  | gguf =>
    refine getLast?_file _ _ ?_
    rw [ggufEnding_eq, String.toList_append]
    exact getLast?_append_right (by decide)
  | coreml =>
    simp only [String.toList_append]
    exact getLast?_file _ _ rfl
  | tflite => exact getLast?_file _ _ rfl

theorem subdir_inj {s t : OutputSpec} (hformat : s.format = t.format) (h : subdir s = subdir t) :
    lower (s.quant.getD "none") = lower (t.quant.getD "none") := by
  unfold subdir at h
  rw [hformat, String.toList_inj, String.append_right_inj] at h
  exact h

/-- Products of entries that can be converted are one file exactly when the formats are one and the
quantisations are, case apart. -/
theorem productPlace_eq_iff {w : Work} {s t : OutputSpec} (hs : Convertible w s)
    (ht : Convertible w t) : productPlace w s = productPlace w t ↔
      s.format = t.format ∧ s.quant.map lower = t.quant.map lower := by
  constructor
  · intro heq
    have hformat : s.format = t.format := by
      have hlast := productPlace_last w s
      rw [heq, productPlace_last, Option.some.injEq] at hlast
      revert hlast
      cases s.format <;> cases t.format <;> decide
    refine ⟨hformat, ?_⟩
    unfold productPlace placeOf at heq
    unfold Convertible at hs ht
    rw [← hformat] at heq ht
    cases hcase : s.format with
    | gguf =>
      simp only [hcase] at heq
      obtain ⟨hplace, hfile⟩ := List.append_inj' heq rfl
      have hquant := subdir_inj hformat (List.cons.inj (List.append_cancel_left hplace)).1
      have hending := List.append_cancel_left (List.cons.inj hfile).1
      rw [ggufEnding_eq, ggufEnding_eq, String.toList_inj, String.append_left_inj,
        String.append_right_inj] at hending
      cases hs' : s.quant with
      | none =>
        cases ht' : t.quant with
        | none => rfl
        | some q =>
          -- an entry without a quantisation is f16, and one that names `none` is not
          exfalso
          have hnone : "none" = lower q := by simpa [hs', ht', lower_none] using hquant
          simp [hs', ht', wantedQuant, Option.filter_some, ← hnone] at hending
      | some q =>
        cases ht' : t.quant with
        | none =>
          exfalso
          have hnone : lower q = "none" := by simpa [hs', ht', lower_none] using hquant
          simp [hs', ht', wantedQuant, Option.filter_some, hnone] at hending
        | some q' => simpa [hs', ht'] using hquant
    | coreml =>
      simp only [hcase] at heq hs ht
      obtain ⟨hplace, -⟩ := List.append_inj' heq rfl
      have hquant := subdir_inj hformat (List.cons.inj (List.append_cancel_left hplace)).1
      have hs := hs.2.2.2
      have ht := ht.2.2.2
      cases hs' : s.quant with
      | none =>
        cases ht' : t.quant with
        | none => rfl
        | some q =>
          have hnone : "none" = lower q := by simpa [hs', ht', lower_none] using hquant
          have hq := ht q ht'
          rw [← hnone] at hq
          exact absurd hq (by simp)
      | some q =>
        cases ht' : t.quant with
        | none =>
          have hnone : lower q = "none" := by simpa [hs', ht', lower_none] using hquant
          have hq := hs q hs'
          rw [hnone] at hq
          exact absurd hq (by simp)
        | some q' => simpa [hs', ht'] using hquant
    | tflite =>
      simp only [hcase] at hs ht
      obtain ⟨q, hq, hint8⟩ := hs.2.2.2
      obtain ⟨q', hq', hint8'⟩ := ht.2.2.2
      rw [Option.mem_def.mp hq, Option.mem_def.mp hq', Option.map_some, Option.map_some, hint8,
        hint8']
  · rintro ⟨hformat, hquant⟩
    have hplace : placeOf w.workRoot s = placeOf w.workRoot t := by
      unfold placeOf subdir
      rw [hformat, lower_getD hquant]
    have hbase : coremlBase s.quant = coremlBase t.quant := by
      unfold coremlBase
      rw [any_lower, any_lower, hquant]
    unfold productPlace
    rw [hplace, hformat, ggufEnding_eq, ggufEnding_eq, wantedQuant_lower hquant, hbase]

/-! ## Directories and labels -/

/-- Read from the entry's directory, the directories of the name lead back into it. -/
def Stays (w : Work) (spec : OutputSpec) : Prop :=
  placeOf w.workRoot spec <+:
    walk (isAbsolute w.workRoot) (placeOf w.workRoot spec) (upTo w.name)

section Entry

variable {w : Work} {spec : OutputSpec} {p : ConvertPlan}

theorem inside_suffix (hnamed : Named spec) {suffix : List Char} (hdash : '-' ∈ suffix)
    (hslash : '/' ∉ suffix) :
    Inside (outDirOf w.workRoot spec) (join [outDirOf w.workRoot spec, w.name ++ suffix]) ↔
      Stays w spec := by
  rw [join_suffix hnamed hdash hslash, outDirOf_eq w.workRoot hnamed]
  exact inside_iff (normal_placeOf w.workRoot hnamed) (by simp [placeOf])
    (normal_suffix hnamed hdash hslash)

theorem inside_name (hnamed : Named spec) {n : Part} (hn : IsName n) :
    Inside (outDirOf w.workRoot spec) (join [outDirOf w.workRoot spec, n]) := by
  have hplace := normal_placeOf w.workRoot hnamed
  rw [join_in hnamed hn, outDirOf_eq w.workRoot hnamed]
  exact (inside_iff hplace (by simp [placeOf]) (hplace.append_name hn)).mpr (List.prefix_refl _)

/-- Only what is called by the name can be written elsewhere. -/
theorem writes_inside_iff (hnamed : Named spec) (hplan : w.plan spec = .ok p) :
    (∀ f ∈ p.steps.flatMap Step.writes, Inside (outDirOf w.workRoot spec) f) ↔
      (spec.format ≠ .coreml → Stays w spec) := by
  unfold Work.plan planConvert at hplan
  cases hformat : spec.format with
  | gguf =>
    simp only [hformat] at hplan
    obtain ⟨-, -, hwrites, -⟩ := planGguf_spec hplan
    have hfacts := ggufSuffix_facts hnamed
    rw [hwrites]
    constructor
    · intro h _
      have hfirst := List.mem_map_of_mem (f := fun suffix =>
        join [outDirOf w.workRoot spec, w.name ++ suffix])
        (List.mem_cons_self : "-f16.gguf".toList ∈ ggufSuffixes spec.quant)
      exact (inside_suffix hnamed (by simp) (by simp)).mp (h _ hfirst)
    · intro h f hf
      obtain ⟨suffix, hsuffix, rfl⟩ := List.mem_map.mp hf
      obtain ⟨hdash, hslash⟩ := hfacts suffix hsuffix
      exact (inside_suffix hnamed hdash hslash).mpr (h (by decide))
  | coreml =>
    simp only [hformat] at hplan
    obtain ⟨-, -, hwrites, -⟩ := planCoreml_spec hplan
    refine iff_of_true (fun f hf => ?_) (fun h => absurd rfl h)
    obtain ⟨n, hn, rfl⟩ := hwrites f hf
    exact inside_name hnamed hn
  | tflite =>
    simp only [hformat] at hplan
    obtain ⟨-, -, hwrites, -⟩ := planTflite_spec hplan
    rw [hwrites]
    simp only [List.mem_singleton, forall_eq, ne_eq, reduceCtorEq, not_false_eq_true, forall_const]
    exact inside_suffix hnamed (by simp) (by simp)

/-- The one label that is not of what is made is full precision of a GGUF. -/
theorem labelled_iff (hplan : w.plan spec = .ok p) :
    (∃ made, p.made = some made ∧ Labelled p.quant made) ↔
      ¬(spec.format = .gguf ∧ spec.quant.map lower = some "f32") := by
  have hconvertible := (plan_ok_iff w spec).mp ⟨p, hplan⟩
  unfold Convertible at hconvertible
  unfold Work.plan planConvert at hplan
  cases hformat : spec.format with
  | gguf =>
    simp only [hformat] at hplan
    obtain ⟨hquant, hmade, -, -⟩ := planGguf_spec hplan
    rw [hquant, hmade]
    cases spec.quant with
    | none => simp [Labelled, wantedQuant, lower_f16, halfNames]
    | some q =>
      simp only [wantedQuant, Option.filter_some, Option.some.injEq, exists_eq_left',
        Option.map_some, true_and, Labelled]
      by_cases hhalf : lower q = "f16"
      · simp [hhalf, lower_f16, halfNames]
      · by_cases hfull : lower q = "f32"
        · simp [hfull, lower_f16, halfNames]
        · simp [hhalf, hfull]
  | coreml =>
    simp only [hformat] at hplan hconvertible
    obtain ⟨hquant, hmade, -, -⟩ := planCoreml_spec hplan
    rw [hquant, hmade]
    refine iff_of_true ⟨_, rfl, ?_⟩ (by simp)
    have hknown := hconvertible.2.2.2
    cases hspec : spec.quant with
    | none => simp [Labelled, lower_fp16, halfNames]
    | some q =>
      have hq := hknown q hspec
      simp only [List.mem_cons, List.not_mem_nil, or_false] at hq
      rcases hq with hq | hq | hq <;> simp [Labelled, hq, lower_fp16, lower_int8, halfNames]
  | tflite =>
    simp only [hformat] at hplan hconvertible
    obtain ⟨hquant, hmade, -, -⟩ := planTflite_spec hplan
    rw [hquant, hmade]
    obtain ⟨q, hq, hint8⟩ := hconvertible.2.2.2
    refine iff_of_true ⟨_, rfl, ?_⟩ (by simp)
    rw [Option.mem_def.mp hq, Labelled, lower_int8]
    exact .inl hint8

end Entry

/-! ## The requests -/

section Parse

variable {js : Js}

theorem quantOf_name {i : Nat} {v : Option Json} {quant : Option String}
    (h : quantOf js i v = .ok quant) : ∀ q ∈ quant, isQuantName q = true := by
  intro q hq
  unfold quantOf at h
  split at h
  · cases Except.ok.inj h
    cases hq
  · cases Except.ok.inj h
    cases hq
  · cases Except.ok.inj h
    cases hq
  · split at h
    · next hname =>
      cases Except.ok.inj h
      rwa [← Option.some.inj hq]
    · cases h
  · cases h

theorem parseFrom_named {i : Nat} {specs out : List OutputSpec} {entries : List Json}
    (h : parseFrom js i specs entries = .ok out) (hspecs : ∀ s ∈ specs, Named s) :
    ∀ s ∈ out, Named s := by
  induction entries generalizing i specs with
  | nil => exact Except.ok.inj h ▸ hspecs
  | cons entry rest ih =>
    cases entry with
    | obj fields =>
      rw [parseFrom] at h
      split at h
      · cases h
      · split at h
        · cases h
        · next hquant =>
          split at h
          · cases h
          · refine ih h fun s hs => ?_
            rcases List.mem_append.mp hs with hs | hs
            · exact hspecs s hs
            · rw [List.mem_singleton.mp hs]
              exact quantOf_name hquant
    | null => cases h
    | bool b => cases h
    | num q => cases h
    | str s => cases h
    | arr xs => cases h

theorem parseOutputs_named {v : Option Json} {specs : List OutputSpec}
    (h : parseOutputs js v = .ok specs) : ∀ s ∈ specs, Named s := by
  unfold parseOutputs at h
  split at h
  · exact parseFrom_named h (by simp)
  · cases h

end Parse

/-- The conversions of a request are faithful exactly when no two entries that can be converted
differ in the case of the quantisation alone, the name does not lead out of an entry's directory,
and no GGUF is asked for in full precision. -/
theorem faithful_iff {js : Js} {v : Option Json} {specs : List OutputSpec} (w : Work)
    (hparse : parseOutputs js v = .ok specs) : Faithful w specs ↔
      (∀ (i j : Nat) s t, i ≠ j → specs[i]? = some s → specs[j]? = some t → Convertible w s →
        Convertible w t → s.format = t.format → s.quant.map lower ≠ t.quant.map lower) ∧
      (∀ s ∈ specs, Convertible w s → s.format ≠ .coreml → Stays w s) ∧
      ∀ s ∈ specs, Convertible w s → ¬(s.format = .gguf ∧ s.quant.map lower = some "f32") := by
  have hnamed := parseOutputs_named hparse
  constructor
  · rintro ⟨hdistinct, hinside, hlabelled⟩
    refine ⟨fun i j s t hij hs ht hcs hct hformat hquant => ?_, fun s hs hc => ?_,
      fun s hs hc => ?_⟩
    · obtain ⟨p, hp⟩ := (plan_ok_iff w s).mpr hcs
      obtain ⟨q, hq⟩ := (plan_ok_iff w t).mpr hct
      refine hdistinct i j s t p q hij hs ht hp hq ?_
      rw [productPath_eq (hnamed s (List.mem_of_getElem? hs)) hp,
        productPath_eq (hnamed t (List.mem_of_getElem? ht)) hq,
        (productPlace_eq_iff hcs hct).mpr ⟨hformat, hquant⟩]
    · obtain ⟨p, hp⟩ := (plan_ok_iff w s).mpr hc
      refine (writes_inside_iff (hnamed s hs) hp).mp fun f hf => ?_
      obtain ⟨step, hstep, hf⟩ := List.mem_flatMap.mp hf
      exact hinside s hs p hp step hstep f hf
    · obtain ⟨p, hp⟩ := (plan_ok_iff w s).mpr hc
      exact (labelled_iff hp).mp (hlabelled s hs p hp)
  · rintro ⟨hdistinct, hstays, hprecision⟩
    refine ⟨fun i j s t p q hij hs ht hp hq heq => ?_, fun s hs p hp step hstep f hf => ?_,
      fun s hs p hp => ?_⟩
    · have hcs := (plan_ok_iff w s).mp ⟨p, hp⟩
      have hct := (plan_ok_iff w t).mp ⟨q, hq⟩
      have hns := hnamed s (List.mem_of_getElem? hs)
      have hnt := hnamed t (List.mem_of_getElem? ht)
      rw [productPath_eq hns hp, productPath_eq hnt hq] at heq
      have hplace := render_inj (normal_productPlace hns) (normal_productPlace hnt)
        productPlace_ne_nil productPlace_ne_nil heq
      obtain ⟨hformat, hquant⟩ := (productPlace_eq_iff hcs hct).mp hplace
      exact hdistinct i j s t hij hs ht hcs hct hformat hquant
    · have hc := (plan_ok_iff w s).mp ⟨p, hp⟩
      exact (writes_inside_iff (hnamed s hs) hp).mpr (hstays s hs hc) f
        (List.mem_flatMap.mpr ⟨step, hstep, hf⟩)
    · exact (labelled_iff hp).mpr (hprecision s hs ((plan_ok_iff w s).mp ⟨p, hp⟩))

/-! ## Three requests -/

def requested (specs : List OutputSpec) : Json :=
  .arr (specs.map fun s =>
    .obj [("format", .str s.format.text), ("quant", .str (s.quant.getD ""))])

/-- A machine with llama.cpp, and a job with this name. -/
def bench (name : String) : Work where
  workRoot := "/tmp/fleet-convert".toList
  name := name.toList
  source := "/tmp/fleet-convert/model".toList
  calibrationDir := none
  tools := {
    ggufConvert := some "/opt/llama.cpp/convert_hf_to_gguf.py"
    ggufQuantize := some "/opt/llama.cpp/llama-quantize"
    ggufPython := some "/usr/bin/python3"
    coremlPython := none
    coremlConvert := none
    xcrun := none
    tflitePython := none
    tfliteQuantize := none }

theorem convertible_bench (name : String) (quant : Option String) :
    Convertible (bench name) ⟨.gguf, quant⟩ := ⟨rfl, rfl, .inr rfl⟩

def twoCases : List OutputSpec := [⟨.gguf, some "Q4_K_M"⟩, ⟨.gguf, some "q4_k_m"⟩]

def fullPrecision : List OutputSpec := [⟨.gguf, some "f32"⟩]

def eightBits : List OutputSpec := [⟨.gguf, some "q8_0"⟩]

theorem named_eightBits : Named ⟨.gguf, some "q8_0"⟩ := by
  intro q hq
  rw [← Option.some.inj hq]
  decide

/-- Two spellings of one quantisation, a name that leads out of the directory, and an f16 file
under the label f32. -/
theorem faithful_fails :
    (parseOutputs Js.plain (some (requested twoCases)) = .ok twoCases ∧
      ¬ Faithful (bench "model") twoCases) ∧
    (parseOutputs Js.plain (some (requested eightBits)) = .ok eightBits ∧
      ¬ Faithful (bench "../model") eightBits) ∧
    (parseOutputs Js.plain (some (requested fullPrecision)) = .ok fullPrecision ∧
      ¬ Faithful (bench "model") fullPrecision) := by
  refine ⟨⟨rfl, fun h => ?_⟩, ⟨rfl, fun h => ?_⟩, ⟨rfl, fun h => ?_⟩⟩
  · obtain ⟨p, hp⟩ := (plan_ok_iff (bench "model") _).mpr
      (convertible_bench "model" (some "Q4_K_M"))
    obtain ⟨q, hq⟩ := (plan_ok_iff (bench "model") _).mpr
      (convertible_bench "model" (some "q4_k_m"))
    refine h.distinct 0 1 _ _ p q (by decide) rfl rfl hp hq ?_
    have hparse : parseOutputs Js.plain (some (requested twoCases)) = .ok twoCases := rfl
    have hnamed := parseOutputs_named hparse
    rw [productPath_eq (hnamed _ (by simp [twoCases])) hp,
      productPath_eq (hnamed _ (by simp [twoCases])) hq]
    refine congrArg _ ((productPlace_eq_iff (convertible_bench _ _) (convertible_bench _ _)).mpr ?_)
    exact ⟨rfl, by decide⟩
  · obtain ⟨p, hp⟩ := (plan_ok_iff (bench "../model") _).mpr
      (convertible_bench "../model" (some "q8_0"))
    have hstays := (writes_inside_iff named_eightBits hp).mp (fun f hf => by
      obtain ⟨step, hstep, hf⟩ := List.mem_flatMap.mp hf
      exact h.inside _ (by simp [eightBits]) p hp step hstep f hf) (by decide)
    unfold Stays at hstays
    revert hstays
    decide
  · obtain ⟨p, hp⟩ := (plan_ok_iff (bench "model") _).mpr (convertible_bench "model" (some "f32"))
    exact (labelled_iff hp).mp (h.labelled _ (by simp [fullPrecision]) p hp) ⟨rfl, by decide⟩

theorem faithful_eightBits : Faithful (bench "model") eightBits := by
  have hparse : parseOutputs Js.plain (some (requested eightBits)) = .ok eightBits := rfl
  refine (faithful_iff (bench "model") hparse).mpr ⟨?_, fun s hs _ _ => ?_, fun s hs _ => ?_⟩
  · intro i j s t hij hs ht
    obtain ⟨hi, -⟩ := List.getElem?_eq_some_iff.mp hs
    obtain ⟨hj, -⟩ := List.getElem?_eq_some_iff.mp ht
    simp only [eightBits, List.length_singleton] at hi hj
    omega
  · rw [List.mem_singleton.mp hs]
    exact ⟨[], by decide⟩
  · rw [List.mem_singleton.mp hs]
    decide

end FleetRunner.Machine.Converters
