/-!
Contract: the configuration constants of `param.h`, `fs.h` and `proc.h` that the
modelled code reads, under their source names.
-/

namespace Xv6

def NPROC : Nat := 64

theorem NPROC_pos : 0 < NPROC := by decide

theorem one_lt_NPROC : 1 < NPROC := by decide

def NOFILE : Nat := 16

def NFILE : Nat := 100

def NINODE : Nat := 50

theorem NINODE_pos : 0 < NINODE := by decide

theorem one_lt_NINODE : 1 < NINODE := by decide

def NDEV : Nat := 10

def MAXOPBLOCKS : Nat := 10

def LOGSIZE : Nat := MAXOPBLOCKS * 3

def NBUF : Nat := MAXOPBLOCKS * 3

def ROOTDEV : Nat := 1

def BSIZE : Nat := 512

end Xv6
