import Autobase.GroupedRows
import Autobase.JsonText
import Mathlib.Data.String.Basic

/-! # The regions and instances of a cloud provider

The rows of a provider are arranged for the answer: regions under their groups, each with an
image, and instances under three sizes. -/
namespace ConsoleProviderInfo

open JsonText GroupedRows PagedReads

structure CloudRegion where
  regionGroup : String
  regionName : String
  description : String

structure CloudInstance where
  instanceGroup : String
  instanceName : String
  cpu : ℤ
  ram : ℤ
  priceHourly : Float
  priceMonthly : Float
  currency : String
  sharedCpu : Bool

structure CloudImage where
  region : String
  image : Json
  arch : String
  osName : String
  osVersion : String
  updatedAt : ℕ

structure CloudVolume where
  volumeType : String
  volumeDescription : String
  volumeMinSize : ℤ
  volumeMaxSize : ℤ
  priceMonthly : Float
  currency : String
  isDefault : Bool

structure CloudProviderInfo where
  code : String
  cloudRegions : List CloudRegion
  cloudInstances : List CloudInstance
  cloudVolumes : List CloudVolume
  cloudImages : List CloudImage

def instanceTypeSmall : String := "Small Size"
def instanceTypeMedium : String := "Medium Size"
def instanceTypeLarge : String := "Large Size"

/-! ## The answer -/

structure DeploymentCloudImage where
  arch : String
  image : Json
  osName : String
  osVersion : String
  updatedAt : ℕ

structure Datacenter where
  code : String
  location : String
  cloudImage : Option DeploymentCloudImage

structure DeploymentInfoCloudRegion where
  code : String
  datacenters : List Datacenter
  name : String

structure DeploymentInstanceType where
  code : String
  cpu : ℤ
  sharedCPU : Bool
  priceHourly : Float
  priceMonthly : Float
  currency : String
  ram : ℤ

structure InstanceTypes where
  small : List DeploymentInstanceType
  medium : List DeploymentInstanceType
  large : List DeploymentInstanceType

structure Volume where
  currency : String
  maxSize : ℤ
  minSize : ℤ
  priceMonthly : Float
  volumeDescription : String
  volumeType : String
  isDefault : Option Bool

structure ResponseDeploymentInfo where
  avatarURL : String
  cloudRegions : List DeploymentInfoCloudRegion
  code : String
  description : String
  volumes : List Volume
  instanceTypes : InstanceTypes

def CloudImage.swagger (image : CloudImage) : DeploymentCloudImage :=
  ⟨image.arch, image.image, image.osName, image.osVersion, image.updatedAt⟩

def CloudInstance.swagger (i : CloudInstance) : DeploymentInstanceType :=
  ⟨i.instanceName, i.cpu, i.sharedCpu, i.priceHourly, i.priceMonthly, i.currency, i.ram⟩

def CloudVolume.swagger (volume : CloudVolume) : Volume :=
  ⟨volume.currency, volume.volumeMaxSize, volume.volumeMinSize, volume.priceMonthly,
    volume.volumeDescription, volume.volumeType, some volume.isDefault⟩

def findCloudImage (images : List CloudImage) (regionName : String) : Option CloudImage :=
  images.find? fun image => decide (image.region = regionName)

def datacenterRegion (images : List CloudImage) (cloudRegion : CloudRegion) : Datacenter :=
  let cloudImage :=
    match findCloudImage images cloudRegion.regionName with
    | none => findCloudImage images "all"
    | some image => some image
  ⟨cloudRegion.regionName, cloudRegion.description, cloudImage.map CloudImage.swagger⟩

/-- One round of the loop over the instances. -/
def addInstance (types : InstanceTypes) (i : CloudInstance) : InstanceTypes :=
  if i.instanceGroup = instanceTypeSmall then { types with small := types.small ++ [i.swagger] }
  else if i.instanceGroup = instanceTypeMedium then
    { types with medium := types.medium ++ [i.swagger] }
  else if i.instanceGroup = instanceTypeLarge then
    { types with large := types.large ++ [i.swagger] }
  else types

/-- The order in which the runtime walks through the keys of a map. -/
structure MapOrder where
  order : List String → List String
  perm : ∀ keys, (order keys).Perm keys

def regionsByGroup (providerInfo : CloudProviderInfo) : List (String × List Datacenter) :=
  grouped CloudRegion.regionGroup (datacenterRegion providerInfo.cloudImages)
    providerInfo.cloudRegions

def mapKeys (walk : MapOrder) (cloudRegions : List (String × List Datacenter)) : List String :=
  orderBy id (walk.order (keys cloudRegions))

def providerInfoToSwagger (walk : MapOrder) (providerInfo : CloudProviderInfo)
    (description image : String) : ResponseDeploymentInfo :=
  let cloudRegions := regionsByGroup providerInfo
  { avatarURL := image
    cloudRegions := (mapKeys walk cloudRegions).map fun k => ⟨k, find k cloudRegions, k⟩
    code := providerInfo.code
    description := description
    volumes := providerInfo.cloudVolumes.map CloudVolume.swagger
    instanceTypes := providerInfo.cloudInstances.foldl addInstance ⟨[], [], []⟩ }

/-! ## What the answer should hold -/

/-- The image of the region if there is one, else the image for all regions. -/
structure ImageOf (images : List CloudImage) (regionName : String)
    (shown : Option DeploymentCloudImage) : Prop where
  own : (∃ i ∈ images, i.region = regionName) →
    ∃ i ∈ images, i.region = regionName ∧ shown = some i.swagger
  all : (∀ i ∈ images, i.region ≠ regionName) → (∃ i ∈ images, i.region = "all") →
    ∃ i ∈ images, i.region = "all" ∧ shown = some i.swagger
  neither : (∀ i ∈ images, i.region ≠ regionName ∧ i.region ≠ "all") → shown = none

structure Shows (images : List CloudImage) (r : CloudRegion) (shown : Datacenter) : Prop where
  code : shown.code = r.regionName
  location : shown.location = r.description
  image : ImageOf images r.regionName shown.cloudImage

/-- The groups are in sorted order, each has its regions in their order, and all groups together
have every region once. -/
structure RegionsRegrouped (info : CloudProviderInfo) (resp : ResponseDeploymentInfo) : Prop where
  sorted : (resp.cloudRegions.map DeploymentInfoCloudRegion.code).Pairwise (· < ·)
  groups : ∀ g ∈ resp.cloudRegions, g.name = g.code ∧ g.datacenters ≠ [] ∧
    List.Forall₂ (Shows info.cloudImages)
      (info.cloudRegions.filter fun r => decide (r.regionGroup = g.code)) g.datacenters
  every : ∃ regions, regions.Perm info.cloudRegions ∧
    List.Forall₂ (Shows info.cloudImages) regions
      (resp.cloudRegions.flatMap DeploymentInfoCloudRegion.datacenters)

def instancesOf (group : String) (instances : List CloudInstance) : List DeploymentInstanceType :=
  (instances.filter fun i => decide (i.instanceGroup = group)).map CloudInstance.swagger

/-- Each list has the instances of its size in their order. -/
def SizesKept (info : CloudProviderInfo) (resp : ResponseDeploymentInfo) : Prop :=
  resp.instanceTypes = ⟨instancesOf instanceTypeSmall info.cloudInstances,
    instancesOf instanceTypeMedium info.cloudInstances,
    instancesOf instanceTypeLarge info.cloudInstances⟩

def InstanceTypes.all (types : InstanceTypes) : List DeploymentInstanceType :=
  types.small ++ (types.medium ++ types.large)

def instanceSizes : List String := [instanceTypeSmall, instanceTypeMedium, instanceTypeLarge]

def HasSize (i : CloudInstance) : Prop := i.instanceGroup ∈ instanceSizes

instance (i : CloudInstance) : Decidable (HasSize i) :=
  inferInstanceAs (Decidable (_ ∈ instanceSizes))

/-- The three lists together are the instances, each once. -/
def EveryInstance (info : CloudProviderInfo) (resp : ResponseDeploymentInfo) : Prop :=
  resp.instanceTypes.all.Perm (info.cloudInstances.map CloudInstance.swagger)

/-! ## Regions -/

variable {images : List CloudImage} {info : CloudProviderInfo}

theorem findCloudImage_none {name : String} :
    findCloudImage images name = none ↔ ∀ i ∈ images, i.region ≠ name := by
  simp [findCloudImage]

theorem findCloudImage_some {name : String} {i : CloudImage}
    (h : findCloudImage images name = some i) : i ∈ images ∧ i.region = name :=
  ⟨List.mem_of_find?_eq_some h, by simpa using List.find?_some h⟩

theorem imageOf_datacenterRegion (images : List CloudImage) (r : CloudRegion) :
    ImageOf images r.regionName (datacenterRegion images r).cloudImage := by
  simp only [datacenterRegion]
  cases hown : findCloudImage images r.regionName with
  | some i =>
    obtain ⟨hmem, hregion⟩ := findCloudImage_some hown
    refine ⟨fun _ => ⟨i, hmem, hregion, rfl⟩, ?_, ?_⟩
    · exact fun hnone => absurd hregion (hnone i hmem)
    · exact fun hnone => absurd hregion (hnone i hmem).1
  | none =>
    have hnone := findCloudImage_none.mp hown
    refine ⟨?_, ?_, ?_⟩
    · rintro ⟨i, hmem, hregion⟩
      exact absurd hregion (hnone i hmem)
    · rintro - ⟨i, hmem, hregion⟩
      cases hall : findCloudImage images "all" with
      | none => exact absurd hregion (findCloudImage_none.mp hall i hmem)
      | some j =>
        obtain ⟨hj, hjregion⟩ := findCloudImage_some hall
        exact ⟨j, hj, hjregion, rfl⟩
    · intro hneither
      have hall : findCloudImage images "all" = none :=
        findCloudImage_none.mpr fun i hi => (hneither i hi).2
      simp only [hall, Option.map_none]

theorem shows_datacenterRegions (images : List CloudImage) (regions : List CloudRegion) :
    List.Forall₂ (Shows images) regions (regions.map (datacenterRegion images)) := by
  rw [List.forall₂_map_right_iff, List.forall₂_same]
  intro r _
  exact ⟨rfl, rfl, imageOf_datacenterRegion images r⟩

theorem mem_mapKeys (walk : MapOrder) {k : String} :
    k ∈ mapKeys walk (regionsByGroup info) ↔ ∃ r ∈ info.cloudRegions, r.regionGroup = k := by
  rw [mapKeys, mem_orderBy, (walk.perm _).mem_iff, regionsByGroup, mem_keys_grouped]

theorem mapKeys_sorted (walk : MapOrder) (info : CloudProviderInfo) :
    (mapKeys walk (regionsByGroup info)).Pairwise (· < ·) := by
  have hnodup : ((walk.order (keys (regionsByGroup info))).map id).Nodup := by
    rw [List.map_id, (walk.perm _).nodup_iff]
    exact nodup_keys_grouped _ _ _
  exact orderBy_sorted hnodup

theorem find_regionsByGroup (info : CloudProviderInfo) (k : String) :
    find k (regionsByGroup info) = (info.cloudRegions.filter fun r =>
      decide (r.regionGroup = k)).map (datacenterRegion info.cloudImages) :=
  find_grouped _ _ _ k

theorem regions_regrouped (walk : MapOrder) (info : CloudProviderInfo)
    (description image : String) :
    RegionsRegrouped info (providerInfoToSwagger walk info description image) := by
  refine ⟨?_, ?_, ?_⟩
  · simp only [providerInfoToSwagger, List.map_map, Function.comp_def, List.map_id']
    exact mapKeys_sorted walk info
  · intro g hg
    obtain ⟨k, hk, rfl⟩ := List.mem_map.mp hg
    obtain ⟨r, hr, hgroup⟩ := (mem_mapKeys walk).mp hk
    refine ⟨rfl, ?_, ?_⟩
    · rw [find_regionsByGroup]
      intro hempty
      have hmem : r ∈ info.cloudRegions.filter fun r => decide (r.regionGroup = k) :=
        List.mem_filter.mpr ⟨hr, by simpa using hgroup⟩
      rw [List.map_eq_nil_iff.mp hempty] at hmem
      cases hmem
    · rw [find_regionsByGroup]
      exact shows_datacenterRegions _ _
  · refine ⟨(mapKeys walk (regionsByGroup info)).flatMap fun k =>
      info.cloudRegions.filter fun r => decide (r.regionGroup = k), ?_, ?_⟩
    · apply flatMap_filter_perm ((mapKeys_sorted walk info).imp ne_of_lt)
      intro r hr
      exact (mem_mapKeys walk).mpr ⟨r, hr, rfl⟩
    · simp only [providerInfoToSwagger, List.flatMap_map, find_regionsByGroup]
      rw [← List.map_flatMap]
      exact shows_datacenterRegions _ _

/-! ## Instances -/

theorem addInstance_all (types : InstanceTypes) (instances : List CloudInstance) :
    instances.foldl addInstance types =
      ⟨types.small ++ instancesOf instanceTypeSmall instances,
        types.medium ++ instancesOf instanceTypeMedium instances,
        types.large ++ instancesOf instanceTypeLarge instances⟩ := by
  have hsm : instanceTypeSmall ≠ instanceTypeMedium := by decide
  have hsl : instanceTypeSmall ≠ instanceTypeLarge := by decide
  have hml : instanceTypeMedium ≠ instanceTypeLarge := by decide
  induction instances generalizing types with
  | nil => simp [instancesOf]
  | cons i instances ih =>
    rw [List.foldl_cons, ih]
    by_cases hs : i.instanceGroup = instanceTypeSmall
    · simp [addInstance, instancesOf, hs, hsm, hsl]
    · by_cases hm : i.instanceGroup = instanceTypeMedium
      · simp [addInstance, instancesOf, hm, hsm.symm, hml]
      · by_cases hl : i.instanceGroup = instanceTypeLarge
        · simp [addInstance, instancesOf, hl, hsl.symm, hml.symm]
        · simp [addInstance, instancesOf, hs, hm, hl]

theorem sizes_kept (walk : MapOrder) (info : CloudProviderInfo) (description image : String) :
    SizesKept info (providerInfoToSwagger walk info description image) := by
  rw [SizesKept, providerInfoToSwagger, addInstance_all]
  simp

theorem instances_perm (walk : MapOrder) (info : CloudProviderInfo) (description image : String) :
    (providerInfoToSwagger walk info description image).instanceTypes.all.Perm
      ((info.cloudInstances.filter fun i => decide (HasSize i)).map CloudInstance.swagger) := by
  have hsizes : instanceSizes.Nodup := by decide
  have hcover : ∀ i ∈ info.cloudInstances.filter fun i => decide (HasSize i),
      i.instanceGroup ∈ instanceSizes := by
    intro i hi
    exact of_decide_eq_true (List.mem_filter.mp hi).2
  have hperm := (flatMap_filter_perm hsizes hcover).map CloudInstance.swagger
  have hgroup : ∀ size ∈ instanceSizes,
      ((info.cloudInstances.filter fun i => decide (HasSize i)).filter
        fun i => decide (i.instanceGroup = size)).map CloudInstance.swagger =
        instancesOf size info.cloudInstances := by
    intro size hsize
    rw [List.filter_filter, instancesOf]
    congr 1
    apply List.filter_congr
    intro i _
    by_cases h : i.instanceGroup = size
    · simp [h, HasSize, hsize]
    · simp [h]
  rw [sizes_kept]
  refine List.Perm.trans (List.Perm.of_eq ?_) hperm
  rw [List.map_flatMap, List.flatMap_congr hgroup]
  simp [instanceSizes, InstanceTypes.all]

/-- The regions are regrouped as they should be, and the instances of the three sizes are all
placed; every instance is placed exactly when each has one of the sizes. -/
theorem provider_info_regrouped (walk : MapOrder) (info : CloudProviderInfo)
    (description image : String) :
    RegionsRegrouped info (providerInfoToSwagger walk info description image) ∧
    SizesKept info (providerInfoToSwagger walk info description image) ∧
    (providerInfoToSwagger walk info description image).instanceTypes.all.Perm
      ((info.cloudInstances.filter fun i => decide (HasSize i)).map CloudInstance.swagger) ∧
    (EveryInstance info (providerInfoToSwagger walk info description image) ↔
      ∀ i ∈ info.cloudInstances, HasSize i) := by
  have hperm := instances_perm walk info description image
  refine ⟨regions_regrouped walk info description image, sizes_kept walk info description image,
    hperm, ?_⟩
  constructor
  · intro hevery i hi
    have hlength := (hperm.symm.trans hevery).length_eq
    rw [List.length_map, List.length_map, List.length_filter_eq_length_iff] at hlength
    exact of_decide_eq_true (hlength i hi)
  · intro hall
    have hfilter : (info.cloudInstances.filter fun i => decide (HasSize i)) =
        info.cloudInstances :=
      List.filter_eq_self.mpr fun i hi => decide_eq_true (hall i hi)
    rwa [hfilter] at hperm

def unsized : CloudProviderInfo where
  code := "aws"
  cloudRegions := []
  cloudInstances := [⟨"Extra Large Size", "u7i.metal", 896, 12288, 0, 0, "$", false⟩]
  cloudVolumes := []
  cloudImages := []

theorem unsized_instance_dropped : ¬ ∀ walk info description image,
    RegionsRegrouped info (providerInfoToSwagger walk info description image) ∧
      EveryInstance info (providerInfoToSwagger walk info description image) := by
  intro h
  have hperm := (h ⟨id, List.Perm.refl⟩ unsized "" "").2
  exact absurd hperm.length_eq (by decide)

end ConsoleProviderInfo
