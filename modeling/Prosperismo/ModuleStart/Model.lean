import Prosperismo.Base.Passes
import Prosperismo.Common.StringUtils

/-!
# `StartAllModules`

The part of `runtimeLinker.cpp` that calls the init functions of the loaded modules. A program is
known by its place in `m_programs`, which no init function changes; `StartModule` is the call. -/

namespace Prosperismo.RuntimeLinker

open StringUtils

/-- `Program`, with what `StartAllModules` reads of its `elf` and its `dynamic_info`; the name of
its file is the generic one. -/
structure Program where
  fileName : List UInt8
  soName : Option (List UInt8)
  isShared : Bool
  initVaddr : ℕ
  needed : List (Option (List UInt8))

/-- `GetProgramModuleName`. -/
def getProgramModuleName (program : Program) : List UInt8 :=
  (program.soName.filter fun name => !name.isEmpty).getD (filenameWithoutDirectory program.fileName)

/-- Whether a program is the one that a needed name stands for. -/
def Program.isNamed (program : Program) (neededName : List UInt8) : Bool :=
  equalNoCase (getProgramModuleName program) neededName ||
    equalNoCase (filenameWithoutDirectory program.fileName) neededName

variable (programs : List Program)

/-- The program that a needed name stands for: the first other shared one of that name. -/
def dependency (program : Fin programs.length) (neededName : List UInt8) :
    Option (Fin programs.length) :=
  (List.finRange programs.length).find? fun dependency =>
    dependency != program && programs[dependency].isShared &&
      programs[dependency].isNamed neededName

/-- `ModuleStartDependenciesSatisfied`. -/
def moduleStartDependenciesSatisfied (program : Fin programs.length)
    (started : List (Fin programs.length)) : Bool :=
  programs[program].needed.all <| Option.all fun neededName =>
    neededName.isEmpty || (dependency programs program neededName).all started.contains

/-- Whether a program is a shared module with an init function. -/
def hasInit (program : Fin programs.length) : Bool :=
  programs[program].isShared && programs[program].initVaddr != 0

/-- Whether the passes of `StartAllModules` start a program. -/
def readyToStart (started : List (Fin programs.length)) (program : Fin programs.length) : Bool :=
  hasInit programs program && !started.contains program &&
    moduleStartDependenciesSatisfied programs program started

/-- `StartAllModules`: the calls of the init functions, in their order. The last loop starts what
the passes have left, whatever it needs. -/
def startAllModules : Option (List (Fin programs.length)) :=
  (passes (readyToStart programs) (List.finRange programs.length) (programs.length + 1) []).map
    fun started =>
      (pass (fun started program => hasInit programs program && !started.contains program) started
        false (List.finRange programs.length)).1

end Prosperismo.RuntimeLinker
