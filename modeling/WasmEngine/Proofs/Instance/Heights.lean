import WasmEngine.Proofs.Compiled.Extent
import WasmEngine.Proofs.Compiled.Walk
import WasmEngine.Proofs.Instance.ZeroExtension

/-!
# Heights and frames of compiled code

The compiler gives every operand a slot when it compiles, from the height that
the operand stack will have. That is right only if the height is the same
whenever the instruction is executed. The interpreter has an operand stack, so
the heights can be compared: wherever the interpreter is in a function, the
operands that it has in the frame are as many as the compiler has counted
(`WasmEngine.Instance.compiled_heights_exact`).

Both sides go by the types. A machine in typed code has as many operands over
the base of its frame as the types at its position say
(`WasmEngine.Machine.Typed.height`), and so has the compiler when it comes to
that position (`WasmEngine.Body.length_of_comesTo`).
-/

namespace WasmEngine

/-- **A machine in typed code has as many operands in its frame as the types at
its position say.** -/
theorem Machine.Typed.height {V : ValType → Raw → Prop} {m : Module} {bodies : Nat → Nested}
    {func : Nat} {funcs : List Nat} {x : Machine} (h : Machine.Typed V m bodies (func :: funcs) x) :
    ∃ sc root ts, m.Owns bodies func sc root ∧ x.frame.code = root.flatten.toArray ∧
      root.operandsAt? sc [] x.frame.pc = some ts ∧
      x.values.length = x.frame.valueBase + ts.length := by
  cases h with
  | @mk _ _ sc root base floor frame callers blocks under pc s howns hframe hs _ =>
    obtain ⟨labels, below, us, stop, code, ts, hin, hcode, hs⟩ := hs
    obtain ⟨vs, rfl, hvs⟩ := hin.split
    refine ⟨sc, root, ts ++ below, howns, hframe.code, hcode.located.operandsAt?, ?_⟩
    show (s.operands ++ (vs ++ floor)).length = frame.valueBase + (ts ++ below).length
    rw [List.length_append, List.length_append, List.length_append, ← hframe.values,
      hs.2.length_eq, hvs.length_eq]
    omega

namespace Instance

/-- **The interpreter gets to a machine in a function of a module**, in the
course of some operation on some instance of the module, whatever has been done
to it before. -/
inductive Interprets (m : Module) (func : Nat) : Machine → Prop
  /-- The operation runs code, and the code gets there. -/
  | mk {H : Type} {s : Strategy} {p : FloatPolicy} {o : Options} {past : List (Occasion H)} {h : H}
    {op : Operation H} {env : Env H}
    {r : Runtime} {σ : Site H} {funcs : List Nat} {x : Machine} {w : World H}
    (hstart : Starts ((fresh m s p o).through past) h op env r σ)
      (hreach : Site.Reaches env r σ (.machine (func :: funcs) x w)) : Interprets m func x

/-- **The heights of the compiler are those of the interpreter**, in a function
with a frame of this size. -/
structure HeightsExact (m : Module) (func : Nat) (b : Body) (frameSize : Nat) : Prop where
  /-- The compiler comes to an instruction with one height. -/
  unique : ∀ {pos height height'}, b.ComesTo pos height → b.ComesTo pos height' → height = height'
  /-- So many operands fit into the frame next to the locals. -/
  fits : ∀ {pos height}, b.ComesTo pos height → b.locals + height ≤ frameSize
  /-- The interpreter runs the code that is compiled. -/
  code : ∀ {x}, Interprets m func x → x.frame.code = b.code
  /-- It has so many operands in the frame when it gets to the instruction. -/
  height : ∀ {x height}, Interprets m func x → b.ComesTo x.frame.pc height →
    x.values.length = x.frame.valueBase + height
  /-- It gets to no instruction that the compiler does not come to. Marks at the
  ends of arms are not compiled. -/
  comes : ∀ {x i}, Interprets m func x → b.code[x.frame.pc]? = some i → i.isMark = false →
    ∃ height, b.ComesTo x.frame.pc height

variable {m : Module} {bodies : Nat → Nested}

/-- What the interpreter gets to is typed. Nothing is asked of the values. -/
theorem Interprets.typed (hm : m.Valid) (hb : m.Bodies bodies) {func : Nat} {x : Machine}
    (h : Interprets m func x) :
    ∃ funcs, Machine.Typed (fun _ _ => True) m bodies (func :: funcs) x := by
  obtain @⟨H, s, p, o, past, h, op, env, r, σ, funcs, _, w, hstart, hreach⟩ := h
  have hi := sound_through hm (sound_fresh m s p o) past
  have hc := carries_through hm (sound_fresh m s p o) (carries_fresh p.upholds_true m s o) past
  exact ⟨funcs, (hstart.typed hm hb hi hc hreach).2⟩

/-- The number of operands that the interpreter has in the frame, by the types
of the body. -/
theorem Interprets.height (hm : m.Valid) (hb : m.Bodies bodies) {k : Nat} {f : Func} {t : FuncType}
    (hf : m.funcs[k]? = some f) (ht : m.types[f.type]? = some t) {x : Machine}
    (h : Interprets m (k + m.importedCount) x) :
    x.frame.code = f.code ∧ ∃ ts, (bodies k).thenRet.operandsAt? ⟨m, t.params ++ f.locals,
      t.results⟩ [] x.frame.pc = some ts ∧
      x.values.length = x.frame.valueBase + ts.length := by
  obtain ⟨funcs, htyped⟩ := h.typed hm hb
  obtain ⟨sc, root, ts, howns, hcode, hpos, hlen⟩ := htyped.height
  cases howns with
  | mk hf' ht' =>
    rw [Nat.add_sub_cancel] at hf' hcode hpos
    obtain rfl := Option.some.inj (hf'.symm.trans hf)
    obtain rfl := Option.some.inj (ht'.symm.trans ht)
    refine ⟨?_, ts, hpos, hlen⟩
    rw [hcode, hb.code hf, Nested.code, Nested.flatten_thenRet]

theorem heightsExact (hm : m.Valid) (hb : m.Bodies bodies) {k : Nat} {f : Func} {t : FuncType}
    {cf : CompiledFunc} (hf : m.funcs[k]? = some f) (ht : m.types[f.type]? = some t)
    (hcf : Compiled.compileFunc m f = .ok cf) :
    HeightsExact m (k + m.importedCount) ⟨m, f.code, cf.locals, t.results.length⟩ cf.frameSize := by
  obtain ⟨t', ht', hbody⟩ := hb.typed hf
  obtain rfl := Option.some.inj (ht'.symm.trans ht)
  obtain ⟨ops, heights, hops, hsize⟩ := Compiled.compileSeq_of_compileFunc hcf ht
  have htyped := hbody.thenRet rfl
  have hnarrow := (hb.narrow hf).thenRet
  have hcode : f.code = (bodies k).thenRet.flatten.toArray := by
    rw [hb.code hf, Nested.code, Nested.flatten_thenRet]
  have hlength {pos height : Nat}
      (h : Body.ComesTo ⟨m, f.code, cf.locals, t'.results.length⟩ pos height) :=
    Body.length_of_comesTo hcode rfl rfl htyped hnarrow h
  refine ⟨fun h h' => ?_, fun h => ?_, fun hx => (hx.height hm hb hf ht).1, fun hx h => ?_,
    fun hx hi hmark => ?_⟩
  · obtain ⟨ts, hts, rfl⟩ := hlength h
    obtain ⟨ts', hts', rfl⟩ := hlength h'
    rw [Option.some.inj (hts.symm.trans hts')]
  · rw [hsize]
    exact Nat.add_le_add_left (Body.le_greatest_of_comesTo hcode rfl rfl htyped hnarrow h hops) _
  · obtain ⟨-, ts, hts, hlen⟩ := hx.height hm hb hf ht
    obtain ⟨ts', hts', rfl⟩ := hlength h
    rw [hlen, Option.some.inj (hts.symm.trans hts')]
  · obtain ⟨-, ts, hts, -⟩ := hx.height hm hb hf ht
    exact Body.comesTo_of_operandsAt? hcode rfl rfl htyped hnarrow hts hi hmark

/-- **A valid module is compiled, with exact heights and in frames that are
large enough.** For each of its functions, the height that the compiler knows at
an instruction is the number of operands that the interpreter has in the frame
whenever it is there, and the interpreter is at no instruction that the compiler
leaves out. The slots that compiled operations read and write are in the frame,
and it has room for the locals, and also for the results if the function can
return. -/
theorem heightsExact_of_valid (hm : m.Valid) :
    ∃ c, Compiled.compile m = .ok c ∧ ∀ k f, m.funcs[k]? = some f →
      ∃ t cf, m.types[f.type]? = some t ∧ c.funcs[k]? = some cf ∧
        cf.locals = t.params.length + f.locals.length ∧
        HeightsExact m (k + m.importedCount) ⟨m, f.code, cf.locals, t.results.length⟩
          cf.frameSize ∧
        c.InFrame (k + m.importedCount) t cf := by
  obtain ⟨scope, sources, hchecked⟩ := hm.checked
  have hb := hchecked.bodies
  obtain ⟨c, hc, hrenders⟩ := Compiled.exists_compile hb hm.imports
  refine ⟨c, hc, fun k f hf => ?_⟩
  obtain ⟨t, ht, -⟩ := hb.typed hf
  obtain ⟨cf, hcf, hof⟩ := hrenders.funcs hf ht
  have hfunc := Compiled.compileFunc_of_compile hc hf hcf
  refine ⟨t, cf, ht, hcf, hof.locals, heightsExact hm hb hf ht hfunc, ?_⟩
  rw [← hrenders.imported]
  exact hof.inFrame hrenders.types hcf

/-- **A module that can be decoded is compiled, with exact heights and in frames
that are large enough.** -/
theorem compiled_heights_exact {bs : List UInt8} (hm : Module.decode bs = .ok m) :
    ∃ c, Compiled.compile m = .ok c ∧ ∀ k f, m.funcs[k]? = some f →
      ∃ t cf, m.types[f.type]? = some t ∧ c.funcs[k]? = some cf ∧
        cf.locals = t.params.length + f.locals.length ∧
        HeightsExact m (k + m.importedCount) ⟨m, f.code, cf.locals, t.results.length⟩
          cf.frameSize ∧
        c.InFrame (k + m.importedCount) t cf :=
  heightsExact_of_valid (Module.valid_of_decode hm)

/-- The function of the adder returns. -/
theorem adder_returns {c : Compiled} (hc : Compiled.compile adder = .ok c) : c.Returns 1 := by
  have hruns : ((Compiled.compile adder).toOption.map fun c =>
      (Compiled.execute ⟨adder, .soft, #[]⟩ c 20 1 0
        ⟨#[4], ⟨compiledAdder.store, ⟨0, 251⟩, ()⟩⟩).1.toOption) = some (some ()) := by
    decide +kernel
  rw [hc] at hruns
  rcases hrun :
    Compiled.execute ⟨adder, .soft, #[]⟩ c 20 1 0
    ⟨#[4], ⟨compiledAdder.store, ⟨0, 251⟩, ()⟩⟩ with ⟨e | _, a⟩
  · rw [Except.toOption, Option.map_some, hrun] at hruns
    cases hruns
  · exact ⟨_, _, _, _, _, _, hrun⟩

/-- In the function of the adder, the compiler comes to the second instruction
with the one operand that the interpreter has there, and the frame has room for
the parameter and the result. -/
theorem adder_heights_exact : Module.decode adderBytes = .ok adder ∧
    Interprets adder 1 adderMachine ∧
    ∃ c cf, Compiled.compile adder = .ok c ∧ c.funcs[1]? = some cf ∧
    (⟨adder, adder.funcs[1].code, 1, 1⟩ : Body).ComesTo 1 1 ∧
      c.Returns 1 ∧ 2 ≤ cf.frameSize := by
  obtain ⟨env, r, σ, w, hstart, hreach⟩ := adder_reaches
  have hx : Interprets adder 1 adderMachine := .mk hstart hreach
  obtain ⟨c, hc, hfuncs⟩ := compiled_heights_exact decode_adder
  obtain ⟨t, cf, ht, hcf, hlocals, hheights, hframe⟩ := hfuncs 1 adder.funcs[1] rfl
  obtain rfl : ⟨[.i32], [.i32]⟩ = t := Option.some.inj ht
  rw [hlocals] at hheights
  obtain ⟨n, hn⟩ := hheights.comes hx rfl rfl
  obtain rfl : 1 = n := by simpa [adderMachine] using hheights.height hx hn
  have hroom := hframe.results (adder_returns hc)
  rw [hlocals] at hroom
  exact ⟨decode_adder, hx, c, cf, hc, hcf, hn, adder_returns hc, hroom⟩

end Instance

end WasmEngine
