import Rdmas.Model.Layout

/-! # Tenant namespaces

`TenantNamespace` of `control/tenant.rs`. Tenants share one table; a tenant's id is the seed under which its
keys are hashed, and the complement of the id the seed of the other half of the digest. XXH64 is a parameter.
-/

namespace Rdmas.Model

open LittleEndian FixedBytes

structure TenantNamespace where
  tenantId : BitVec 64
deriving DecidableEq, Repr

namespace TenantNamespace

variable (xxh64 : Xxh64) (tenant : TenantNamespace) (key : Bytes)

def hashKey : BitVec 64 := xxh64 key tenant.tenantId

def hashedKey : HashedKey :=
  let hash := xxh64 key tenant.tenantId
  let digestSeed := tenant.tenantId ^^^ 0xFFFFFFFFFFFFFFFF
  let digestHash := xxh64 key digestSeed
  ⟨hash, copyFromSlice (copyFromSlice (zeros 16) 0 (encode 8 hash.toNat)) 8 (encode 8 digestHash.toNat)⟩

end TenantNamespace

end Rdmas.Model
