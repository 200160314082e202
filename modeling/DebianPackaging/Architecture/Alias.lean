import DebianPackaging.Architecture.Basic

namespace DebianPackaging.Architecture

open Text

/-- An alias for one CPU, or for every CPU, which then ends the short name. -/
structure Alias where
  abi : Text
  libc : Text
  os : Text
  cpu : Option Text
  names : List Text

namespace Alias

def short (a : Alias) (cpu : Text) : List Text :=
  match a.cpu with
  | some _ => a.names
  | none => a.names ++ [cpu]

def long (a : Alias) (cpu : Text) : Architecture :=
  ⟨a.abi, a.libc, a.os, a.cpu.getD cpu⟩

def expand? (a : Alias) (parts : List Text) : Option Architecture :=
  parts.getLast?.bind fun cpu => if a.short cpu = parts then some (a.long cpu) else none

private def row (abi libc os cpu : String) (names : List String) : Alias :=
  ⟨abi, libc, os, some cpu, names.map String.toList⟩

private def everyCpu (abi libc os : String) (names : List String) : Alias :=
  ⟨abi, libc, os, none, names.map String.toList⟩

def table : List Alias :=
  [
    row "eabi" "uclibc" "linux" "arm" ["uclibc", "linux", "armel"],
    everyCpu "base" "uclibc" "linux" ["uclibc", "linux"],
    row "eabihf" "musl" "linux" "arm" ["musl", "linux", "armhf"],
    everyCpu "base" "musl" "linux" ["musl", "linux"],
    row "eabihf" "gnu" "linux" "arm" ["armhf"],
    row "eabi" "gnu" "linux" "arm" ["armel"],
    row "abin32" "gnu" "linux" "mips64r6el" ["mipsn32r6el"],
    row "abin32" "gnu" "linux" "mips64r6" ["mipsn32r6"],
    row "abin32" "gnu" "linux" "mips64el" ["mipsn32el"],
    row "abin32" "gnu" "linux" "mips64" ["mipsn32"],
    row "abi64" "gnu" "linux" "mips64r6el" ["mips64r6el"],
    row "abi64" "gnu" "linux" "mips64r6" ["mips64r6"],
    row "abi64" "gnu" "linux" "mips64el" ["mips64el"],
    row "abi64" "gnu" "linux" "mips64" ["mips64"],
    row "spe" "gnu" "linux" "powerpc" ["powerpcspe"],
    row "x32" "gnu" "linux" "amd64" ["x32"],
    everyCpu "base" "gnu" "linux" [],
    row "base" "gnu" "kfreebsd" "amd64" ["kfreebsd", "amd64"],
    row "base" "gnu" "kfreebsd" "i386" ["kfreebsd", "i386"],
    row "base" "gnu" "kopensolaris" "amd64" ["kopensolaris", "amd64"],
    row "base" "gnu" "kopensolaris" "i386" ["kopensolaris", "i386"],
    row "base" "gnu" "hurd" "amd64" ["hurd", "amd64"],
    row "base" "gnu" "hurd" "i386" ["hurd", "i386"],
    row "base" "bsd" "dragonflybsd" "amd64" ["dragonflybsd", "amd64"],
    row "base" "bsd" "freebsd" "amd64" ["freebsd", "amd64"],
    row "base" "bsd" "freebsd" "arm" ["freebsd", "arm"],
    row "base" "bsd" "freebsd" "arm64" ["freebsd", "arm64"],
    row "base" "bsd" "freebsd" "i386" ["freebsd", "i386"],
    row "base" "bsd" "freebsd" "powerpc" ["freebsd", "powerpc"],
    row "base" "bsd" "freebsd" "ppc64" ["freebsd", "ppc64"],
    row "base" "bsd" "freebsd" "riscv" ["freebsd", "riscv"],
    everyCpu "base" "bsd" "openbsd" ["openbsd"],
    everyCpu "base" "bsd" "netbsd" ["netbsd"],
    row "base" "bsd" "darwin" "amd64" ["darwin", "amd64"],
    row "base" "bsd" "darwin" "arm" ["darwin", "arm"],
    row "base" "bsd" "darwin" "arm64" ["darwin", "arm64"],
    row "base" "bsd" "darwin" "i386" ["darwin", "i386"],
    row "base" "bsd" "darwin" "powerpc" ["darwin", "powerpc"],
    row "base" "bsd" "darwin" "ppc64" ["darwin", "ppc64"],
    row "base" "sysv" "aix" "powerpc" ["aix", "powerpc"],
    row "base" "sysv" "aix" "ppc64" ["aix", "ppc64"],
    row "base" "sysv" "solaris" "amd64" ["solaris", "amd64"],
    row "base" "sysv" "solaris" "i386" ["solaris", "i386"],
    row "base" "sysv" "solaris" "sparc" ["solaris", "sparc"],
    row "base" "sysv" "solaris" "sparc64" ["solaris", "sparc64"],
    row "base" "tos" "mint" "m68k" ["mint", "m68k"]
  ]

end Alias

end DebianPackaging.Architecture
